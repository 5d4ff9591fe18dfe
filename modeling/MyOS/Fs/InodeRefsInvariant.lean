import MyOS.Fs.InodeRefsCounts

/-! What directory entries and mounts say about the inodes in memory, and that the primitives of the
VFS keep it. -/

namespace MyOS.Fs.VfsState

open Library.AssocLists Function

variable {s t : VfsState} {n m i p r : ℕ} {x : MemInode} {e : TmpfsDirent}

section Locals

@[simp] lemma locals_goto (c : VfsCall) : (s.goto c).locals = s.locals := rfl
@[simp] lemma locals_iget : (s.iget n).locals = n :: s.locals := rfl
@[simp] lemma locals_newInode : (s.newInode x).locals = s.next :: s.locals := rfl
@[simp] lemma locals_addEntry : (s.addEntry e).locals = s.locals.erase e.inode := rfl
@[simp] lemma locals_delEntry : (s.delEntry e).locals = e.inode :: s.locals := rfl
@[simp] lemma locals_takeCwd : (s.takeCwd n).locals = n :: s.locals := rfl
@[simp] lemma locals_takeFile : (s.takeFile n).locals = n :: s.locals := rfl

@[simp] lemma locals_reparent (k d : ℕ) : (s.reparent x n k d).locals = s.locals := by
  unfold reparent
  split_ifs <;> rfl

@[simp] lemma locals_iput : (s.iput n).locals = s.locals.erase n := by
  simp only [iput]
  split
  · rfl
  · split_ifs <;> rfl

lemma mem_erase_pair (a b : ℕ) : a ∈ [a, b].erase b := by
  by_cases h : a = b
  · subst h
    simp
  · rw [List.erase_cons_tail (by simpa using h)]
    exact List.mem_cons_self

end Locals

structure Entered (s : VfsState) : Prop where
  inTree : ∀ e ∈ s.entries, s.InTree e.dir
  dirs : ∀ e ∈ s.entries, ∀ x, s.inode e.dir = some x → x.ext2 = false ∧ x.isDir = true

structure Attached (s : VfsState) : Prop where
  rootSb : ∀ a ∈ s.roots, ∀ x, s.inode a.2 = some x → x.sb = a.1
  rootKeys : (s.roots.map Prod.fst).Nodup
  rootInodes : (s.roots.map Prod.snd).Nodup
  mountedKeys : (s.mounted.map Prod.fst).Nodup
  coveredKeys : (s.covered.map Prod.fst).Nodup
  mountsNodup : s.mounts.Nodup
  mounted : ∀ a ∈ s.mounted, ∃ i, ⟨i, some a.1⟩ ∈ s.mounts ∧ (i, a.2) ∈ s.roots
  covered : ∀ a ∈ s.covered, ∃ i, ⟨i, some a.2⟩ ∈ s.mounts ∧ (i, a.1) ∈ s.roots
  paired : ∀ i p, ⟨i, some p⟩ ∈ s.mounts →
    ∃ r, (i, r) ∈ s.roots ∧ (p, r) ∈ s.mounted ∧ (r, p) ∈ s.covered

structure Inv (s : VfsState) : Prop where
  counted : s.Counted
  entered : s.Entered
  attached : s.Attached

def Kinds (s t : VfsState) : Prop :=
  ∀ n y, t.inode n = some y → ∃ x, s.inode n = some x ∧ y.sb = x.sb ∧ y.ext2 = x.ext2 ∧
    (x.ext2 = false → y.isDir = x.isDir)

section Kinds

lemma Kinds.of_eq (h : t.inode = s.inode) : Kinds s t := by
  intro n y hy
  rw [h] at hy
  exact ⟨y, hy, rfl, rfl, fun _ => rfl⟩

lemma Kinds.trans {u : VfsState} (h : Kinds s t) (hu : Kinds t u) : Kinds s u := by
  intro n z hz
  obtain ⟨y, hy, hsb, hext, hdir⟩ := hu n z hz
  obtain ⟨x, hx, hsb', hext', hdir'⟩ := h n y hy
  refine ⟨x, hx, hsb.trans hsb', hext.trans hext', ?_⟩
  intro hf
  rw [hdir (by rw [hext', hf]), hdir' hf]

lemma kinds_modify {f : MemInode → MemInode} (hf : ∀ x, s.inode n = some x → (f x).sb = x.sb ∧
    (f x).ext2 = x.ext2 ∧ (x.ext2 = false → (f x).isDir = x.isDir)) : Kinds s (s.modify n f) := by
  intro k y hy
  rw [modify_inode] at hy
  split_ifs at hy with hk
  · subst hk
    obtain ⟨x, hx, rfl⟩ := Option.map_eq_some_iff.1 hy
    exact ⟨x, hx, hf x hx⟩
  · exact ⟨y, hy, rfl, rfl, fun _ => rfl⟩

lemma kinds_iget : Kinds s (s.iget n) := by
  have hm : Kinds s (s.modify n fun x => { x with refcount := x.refcount + 1 }) :=
    kinds_modify fun x _ => ⟨rfl, rfl, fun _ => rfl⟩
  exact hm.trans (Kinds.of_eq rfl)

lemma kinds_drop : Kinds s (s.drop n) := by
  intro k y hy
  change update s.inode n _ k = some y at hy
  by_cases hk : k = n
  · subst hk
    rw [update_self] at hy
    split_ifs at hy
    obtain ⟨x, hx, rfl⟩ := Option.map_eq_some_iff.1 hy
    exact ⟨x, hx, rfl, rfl, fun _ => rfl⟩
  · rw [update_of_ne hk] at hy
    exact ⟨y, hy, rfl, rfl, fun _ => rfl⟩

end Kinds

lemma InTree.congr (h : s.InTree n) (he : t.entries = s.entries) (hr : t.roots = s.roots) :
    t.InTree n := by
  unfold InTree
  rw [he, hr]
  exact h

namespace Entered

lemma of_kinds (h : s.Entered) (hk : Kinds s t) (he : t.entries = s.entries)
    (hr : t.roots = s.roots) : t.Entered := by
  refine ⟨?_, ?_⟩
  · intro e hm
    rw [he] at hm
    exact (h.inTree e hm).congr he hr
  · intro e hm y hy
    rw [he] at hm
    obtain ⟨x, hx, -, hext, hdir⟩ := hk e.dir y hy
    obtain ⟨hxe, hxd⟩ := h.dirs e hm x hx
    exact ⟨hext.trans hxe, (hdir hxe).trans hxd⟩

lemma add (h : s.Entered) (hd : s.InTree e.dir)
    (hx : ∀ x, s.inode e.dir = some x → x.ext2 = false ∧ x.isDir = true)
    (hi : t.inode = s.inode) (hr : t.roots = s.roots) (he : t.entries = s.entries ++ [e]) :
    t.Entered := by
  have htree : ∀ n, s.InTree n → t.InTree n := by
    rintro n (hn | ⟨f, hf, rfl⟩)
    · exact .inl (by rwa [hr])
    · exact .inr ⟨f, by rw [he]; exact List.mem_append_left _ hf, rfl⟩
  refine ⟨?_, ?_⟩
  · intro f hf
    rw [he, List.mem_append, List.mem_singleton] at hf
    obtain hf | rfl := hf
    · exact htree _ (h.inTree f hf)
    · exact htree _ hd
  · intro f hf x hfx
    rw [he, List.mem_append, List.mem_singleton] at hf
    rw [hi] at hfx
    obtain hf | rfl := hf
    · exact h.dirs f hf x hfx
    · exact hx x hfx

end Entered

lemma Attached.of_kinds (h : s.Attached) (hk : Kinds s t) (hm : t.mounted = s.mounted)
    (hc : t.covered = s.covered) (hmo : t.mounts = s.mounts) (hr : t.roots = s.roots) :
    t.Attached := by
  refine ⟨?_, ?_, ?_, ?_, ?_, ?_, ?_, ?_, ?_⟩
  · intro a ha y hy
    rw [hr] at ha
    obtain ⟨x, hx, hsb, -, -⟩ := hk a.2 y hy
    exact hsb.trans (h.rootSb a ha x hx)
  · rw [hr]
    exact h.rootKeys
  · rw [hr]
    exact h.rootInodes
  · rw [hm]
    exact h.mountedKeys
  · rw [hc]
    exact h.coveredKeys
  · rw [hmo]
    exact h.mountsNodup
  · rw [hm, hmo, hr]
    exact h.mounted
  · rw [hc, hmo, hr]
    exact h.covered
  · rw [hm, hc, hmo, hr]
    exact h.paired

namespace Inv

lemma kept (h : s.Inv) : s.Kept where
  entered := h.entered.inTree
  mounted a ha := by
    obtain ⟨i, hi, -⟩ := h.attached.mounted a ha
    exact ⟨i, hi⟩
  covered a ha := by
    obtain ⟨i, -, hr⟩ := h.attached.covered a ha
    exact List.mem_map.2 ⟨_, hr, rfl⟩

lemma of_tables (h : s.Inv) (hc : t.Counted) (hk : Kinds s t) (he : t.entries = s.entries)
    (hm : t.mounted = s.mounted) (hco : t.covered = s.covered) (hmo : t.mounts = s.mounts)
    (hr : t.roots = s.roots) : t.Inv :=
  ⟨hc, h.entered.of_kinds hk he hr, h.attached.of_kinds hk hm hco hmo hr⟩

lemma goto (h : s.Inv) (c : VfsCall) : (s.goto c).Inv :=
  h.of_tables (h.counted.goto c) (.of_eq rfl) rfl rfl rfl rfl rfl

lemma giveFile (h : s.Inv) (hn : n ∈ s.locals) : (s.giveFile n).Inv :=
  h.of_tables (h.counted.of_holders rfl rfl rfl fun _ => holders_giveFile hn) (.of_eq rfl)
    rfl rfl rfl rfl rfl

lemma takeFile (h : s.Inv) (hn : n ∈ s.files) : (s.takeFile n).Inv :=
  h.of_tables (h.counted.of_holders rfl rfl rfl fun _ => holders_takeFile hn) (.of_eq rfl)
    rfl rfl rfl rfl rfl

lemma giveCwd (h : s.Inv) (hn : n ∈ s.locals) : (s.giveCwd n).Inv :=
  h.of_tables (h.counted.of_holders rfl rfl rfl fun _ => holders_giveCwd hn) (.of_eq rfl)
    rfl rfl rfl rfl rfl

lemma takeCwd (h : s.Inv) (hn : n ∈ s.cwds) : (s.takeCwd n).Inv :=
  h.of_tables (h.counted.of_holders rfl rfl rfl fun _ => holders_takeCwd hn) (.of_eq rfl)
    rfl rfl rfl rfl rfl

lemma setParent (h : s.Inv) (d : ℕ) : (s.setParent n d).Inv :=
  h.of_tables (h.counted.modify fun _ => rfl)
    (kinds_modify fun _ _ => ⟨rfl, rfl, fun _ => rfl⟩) rfl rfl rfl rfl rfl

lemma reparent (h : s.Inv) (k d : ℕ) : (s.reparent x n k d).Inv := by
  unfold VfsState.reparent
  split_ifs
  · exact h.setParent d
  · exact h

lemma setMode (h : s.Inv) (hn : ∀ x, s.inode n = some x → x.ext2 = true) (b : Bool) :
    (s.setMode n b).Inv := by
  have hk : Kinds s (s.setMode n b) := by
    apply kinds_modify
    intro x hx
    refine ⟨rfl, rfl, ?_⟩
    intro hf
    rw [hn x hx] at hf
    cases hf
  exact h.of_tables (h.counted.modify fun _ => rfl) hk rfl rfl rfl rfl rfl

lemma iget (h : s.Inv) (hn : 0 < s.holders n) : (s.iget n).Inv := by
  obtain ⟨x, hx⟩ := h.counted.held n hn
  exact h.of_tables (h.counted.iget hx) kinds_iget rfl rfl rfl rfl rfl

lemma iput_eq (h : s.Inv) (hn : n ∈ s.locals) : s.iput n = s.drop n :=
  iput_eq_drop h.counted h.kept hn

lemma iput (h : s.Inv) (hn : n ∈ s.locals) : (s.iput n).Inv := by
  rw [h.iput_eq hn]
  exact h.of_tables (h.counted.drop hn) kinds_drop rfl rfl rfl rfl rfl

lemma ne_next (h : s.Inv) (hn : s.InTree n) : n ≠ s.next := by
  rintro rfl
  have hlt := Placed.lt_holders (s := s) (.inl hn)
  have hzero := h.counted.holders_next
  omega

lemma newInode_inode (h : s.Inv) (hn : s.InTree n) : (s.newInode x).inode n = s.inode n :=
  update_of_ne (h.ne_next hn) _ _

lemma newInode (h : s.Inv) (hx : x.refcount = 1) : (s.newInode x).Inv := by
  refine ⟨h.counted.newInode hx, ⟨h.entered.inTree, ?_⟩, ⟨?_, h.attached.rootKeys,
    h.attached.rootInodes, h.attached.mountedKeys, h.attached.coveredKeys, h.attached.mountsNodup,
    h.attached.mounted, h.attached.covered, h.attached.paired⟩⟩
  · intro e he y hy
    rw [h.newInode_inode (h.entered.inTree e he)] at hy
    exact h.entered.dirs e he y hy
  · intro a ha y hy
    rw [h.newInode_inode (.inl (List.mem_map_of_mem ha))] at hy
    exact h.attached.rootSb a ha y hy

lemma addEntry (h : s.Inv) (hl : e.inode ∈ s.locals) (hd : s.InTree e.dir)
    (hx : ∀ x, s.inode e.dir = some x → x.ext2 = false ∧ x.isDir = true) :
    (s.addEntry e).Inv where
  counted := h.counted.of_holders rfl rfl rfl fun _ => holders_addEntry hl
  entered := h.entered.add hd hx rfl rfl rfl
  attached := h.attached.of_kinds (.of_eq rfl) rfl rfl rfl rfl

lemma delEntry (h : s.Inv) (he : e ∈ s.entries) (hempty : ∀ f ∈ s.entries, f.dir ≠ e.inode) :
    (s.delEntry e).Inv where
  counted := h.counted.of_holders rfl rfl rfl fun _ => holders_delEntry he
  entered := by
    refine ⟨?_, ?_⟩
    · intro f hf
      have hf' := List.mem_of_mem_erase hf
      obtain hr | ⟨g, hg, hgf⟩ := h.entered.inTree f hf'
      · exact .inl hr
      · have hne : g ≠ e := by
          rintro rfl
          exact hempty f hf' hgf.symm
        exact .inr ⟨g, (List.mem_erase_of_ne hne).2 hg, hgf⟩
    · exact fun f hf => h.entered.dirs f (List.mem_of_mem_erase hf)
  attached := h.attached.of_kinds (.of_eq rfl) rfl rfl rfl rfl

lemma moveEntry (h : s.Inv) (he : e ∈ s.entries) (hd : s.InTree n)
    (hx : ∀ x, s.inode n = some x → x.ext2 = false ∧ x.isDir = true) (name : String) :
    ((s.delEntry e).addEntry ⟨n, name, e.inode⟩).Inv where
  counted := by
    have hdel : (s.delEntry e).Counted :=
      h.counted.of_holders rfl rfl rfl fun _ => holders_delEntry he
    exact hdel.of_holders rfl rfl rfl fun _ => holders_addEntry List.mem_cons_self
  entered := by
    have htree : ∀ k, s.InTree k → ((s.delEntry e).addEntry ⟨n, name, e.inode⟩).InTree k := by
      rintro k (hk | ⟨g, hg, rfl⟩)
      · exact .inl hk
      · by_cases hge : g = e
        · subst hge
          exact .inr ⟨_, List.mem_append_right _ (List.mem_singleton_self _), rfl⟩
        · exact .inr ⟨g, List.mem_append_left _ ((List.mem_erase_of_ne hge).2 hg), rfl⟩
    refine ⟨?_, ?_⟩
    · intro f hf
      obtain hf | hf := List.mem_append.1 hf
      · exact htree _ (h.entered.inTree f (List.mem_of_mem_erase hf))
      · rw [List.mem_singleton.1 hf]
        exact htree _ hd
    · intro f hf y hy
      obtain hf | hf := List.mem_append.1 hf
      · exact h.entered.dirs f (List.mem_of_mem_erase hf) y hy
      · rw [List.mem_singleton.1 hf] at hy
        exact hx y hy
  attached := h.attached.of_kinds (.of_eq rfl) rfl rfl rfl rfl

end Inv

end MyOS.Fs.VfsState
