import MyOS.Fs.TmpfsDirsRuns

/-! What each call does to the entries and to the references, whether the parents are still there or not. -/

namespace MyOS.Fs

open Library TmpfsDirs

namespace TreeUsers

variable {w w' : TreeUsers} {i j n dir : ℕ} {path : TreePath} {name : String} {a : TreeCall} {e : TmpfsDirent}

def removes (w : TreeUsers) : TreeCall → List TmpfsDirent
  | .unlink i path name | .rmdir i path name => (w.found i path name).toList
  | .rename i src oname dst nname _ =>
    if w.found i src oname = w.found i dst nname then []
    else (w.found i src oname).toList ++ (w.found i dst nname).toList
  | _ => []

/-- The references to inodes that are not from names; one of the root is kept by its file system. -/
def held (w : TreeUsers) : List ℕ := w.fs.root :: (w.cwds ++ w.files)

structure Counts (w : TreeUsers) : Prop where
  refs : w.fs.Counted w.held
  names : ∀ e ∈ w.fs.entries, e.name ≠ "." ∧ e.name ≠ ".."

def Edits (w : TreeUsers) (gone : List TmpfsDirent) (w' : TreeUsers) : Prop :=
  ∃ new, w'.fs.entries = w.fs.entries.filter (· ∉ gone) ++ new ∧ ∀ e ∈ new, e ∉ gone

section Calls

lemma bind_eq_ok {α β : Type} {x : Except TreeError α} {f : α → Except TreeError β} {b : β}
    (h : x >>= f = .ok b) : ∃ a, x = .ok a ∧ f a = .ok b := by
  cases x with
  | error e => cases h
  | ok a => exact ⟨a, rfl, h⟩

lemma map_eq_ok {α β : Type} {x : Except TreeError α} {f : α → β} {b : β} (h : x.map f = .ok b) :
    ∃ a, x = .ok a ∧ f a = b := by
  cases x with
  | error e => cases h
  | ok a => exact ⟨a, rfl, Except.ok.inj h⟩

lemma step_alloc {s : TmpfsDirs} {l : List ℕ} (h : s.Counted l) (hs : s.step dir name = .ok n) :
    (s.inode n).isSome = true := by
  rw [step] at hs
  cases hd : s.inode dir with
  | none =>
    rw [hd] at hs
    cases hs
  | some x =>
    have hsome : (s.inode dir).isSome = true := hd ▸ rfl
    rw [hd] at hs
    dsimp only at hs
    split_ifs at hs
    · exact Except.ok.inj hs ▸ hsome
    · exact Except.ok.inj hs ▸ hsome
    · rw [tmpfsLookup, hd] at hs
      dsimp only at hs
      split_ifs at hs
      · cases hp : x.parent with
        | none =>
          rw [hp] at hs
          exact Except.ok.inj hs ▸ hsome
        | some p =>
          rw [hp] at hs
          dsimp only at hs
          split_ifs at hs with hsp
          exact Except.ok.inj hs ▸ hsp
      · cases hf : s.find dir name with
        | none =>
          rw [hf] at hs
          cases hs
        | some e =>
          rw [hf] at hs
          obtain ⟨y, hy⟩ := h.alloc_entry (find_spec hf).1
          rw [← Except.ok.inj hs, hy]
          rfl

lemma walk_alloc {s : TmpfsDirs} {l : List ℕ} (h : s.Counted l) (names : List String)
    (hd : (s.inode dir).isSome = true) (hw : s.walk names dir = .ok n) : (s.inode n).isSome = true := by
  induction names generalizing dir with
  | nil => exact Except.ok.inj hw ▸ hd
  | cons name names ih =>
    obtain ⟨m, hm, hw⟩ := bind_eq_ok hw
    exact ih (step_alloc h hm) hw

lemma Counts.lookup (h : w.Counts) (hl : w.lookup i path = .ok n) : ∃ y, w.fs.inode n = some y := by
  rw [TreeUsers.lookup] at hl
  cases hc : w.cwds[i]? with
  | none =>
    rw [hc] at hl
    cases hl
  | some cwd =>
    rw [hc] at hl
    refine Option.isSome_iff_exists.1 (walk_alloc h.refs path.names ?_ hl)
    refine Option.isSome_iff_exists.2 (h.refs.alloc_held ?_)
    split_ifs
    · exact List.mem_cons_self
    · exact List.mem_cons_of_mem _ (List.mem_append_left _ (List.mem_of_getElem? hc))

lemma withParent_name (h : w.withParent i path name = .ok dir) : name ≠ "." ∧ name ≠ ".." := by
  obtain ⟨d, -, h⟩ := bind_eq_ok h
  split_ifs at h with hname
  rw [not_or, not_or] at hname
  exact hname.2

lemma erase_eq {l : List TmpfsDirent} (h : l.Nodup) (e : TmpfsDirent) : l.erase e = l.filter (· ∉ [e]) := by
  rw [h.erase_eq_filter]
  exact List.filter_congr fun f _ => by by_cases hf : f = e <;> simp [hf]

lemma Edits.rfl (h : w'.fs.entries = w.fs.entries) : w.Edits [] w' :=
  ⟨[], by rw [h, List.append_nil]; exact (List.filter_eq_self.2 fun e _ => by simp).symm, nofun⟩

lemma Counts.openInode (h : w.Counts) {y : DirNode} (hn : w.fs.inode n = some y) {writing file : Bool}
    (hr : w.openInode n writing file = .ok w') : w'.Counts ∧ w.Edits [] w' := by
  rw [TreeUsers.openInode] at hr
  split_ifs at hr
  cases hr
  refine ⟨⟨(h.refs.iget hn).perm ?_, h.names⟩, .rfl rfl⟩
  show (n :: w.fs.root :: (w.cwds ++ w.files)).Perm (w.fs.root :: (w.cwds ++ (w.files ++ [n])))
  rw [← List.append_assoc]
  exact (List.perm_append_singleton n _).symm

lemma Counts.newEntry (h : w.Counts) {c : ℕ} {x : DirNode} (hx : x.refcount = c + 1) (hname : name ≠ "." ∧ name ≠ "..")
    {l : List ℕ} (hl : (List.replicate c w.fs.next ++ w.held).Perm l)
    (hheld : w'.held = l) (hfs : w'.fs = w.fs.newEntry dir name x) : w'.Counts ∧ w.Edits [] w' := by
  refine ⟨⟨?_, fun e he => ?_⟩, [⟨dir, name, w.fs.next⟩], ?_, nofun⟩
  · rw [hheld, hfs]
    exact (h.refs.newEntry hx dir name).perm hl
  · rw [hfs] at he
    rcases List.mem_append.1 he with he | he
    · exact h.names e he
    · obtain rfl := List.mem_singleton.1 he
      exact hname
  · rw [hfs]
    show w.fs.entries ++ _ = w.fs.entries.filter _ ++ _
    rw [List.filter_eq_self.2 fun e _ => by simp]

lemma Counts.mkdir (h : w.Counts) {room : Bool} (hr : w.vfsMkdir i path name room = .ok w') :
    w'.Counts ∧ w.Edits [] w' := by
  obtain ⟨dir, hp, hr⟩ := bind_eq_ok hr
  cases hf : w.fs.find dir name with
  | some e =>
    rw [hf] at hr
    cases hr
  | none =>
    rw [hf] at hr
    obtain ⟨s, hs, rfl⟩ := map_eq_ok hr
    rw [tmpfsMkdir] at hs
    split_ifs at hs
    cases hs
    exact h.newEntry (c := 0) rfl (withParent_name hp) (.refl _) rfl rfl

lemma Counts.creat (h : w.Counts) {excl writing room file : Bool}
    (hr : w.vfsCreat i path name excl writing room file = .ok w') : w'.Counts ∧ w.Edits [] w' := by
  obtain ⟨dir, hp, hr⟩ := bind_eq_ok hr
  cases hf : w.fs.find dir name with
  | some e =>
    rw [hf] at hr
    dsimp only at hr
    split_ifs at hr
    obtain ⟨y, hy⟩ := h.refs.alloc_entry (find_spec hf).1
    exact h.openInode hy hr
  | none =>
    rw [hf] at hr
    obtain ⟨⟨n, s⟩, hs, hr⟩ := map_eq_ok hr
    rw [tmpfsCreate] at hs
    split_ifs at hs
    cases hs
    have hname := withParent_name hp
    cases file with
    | true =>
      obtain rfl := hr
      refine h.newEntry (c := 1) (x := ⟨false, none, 2⟩) rfl hname ?_ rfl rfl
      show (w.fs.next :: w.fs.root :: (w.cwds ++ w.files)).Perm (w.fs.root :: (w.cwds ++ (w.files ++ [w.fs.next])))
      rw [← List.append_assoc]
      exact (List.perm_append_singleton w.fs.next _).symm
    | false =>
      obtain rfl := hr
      have hperm : (w.fs.root :: w.cwds ++ w.fs.next :: w.files).Perm (w.fs.next :: w.held) := List.perm_middle
      let v : TreeUsers := ⟨w.fs.newEntry dir name ⟨false, none, 2⟩, w.cwds, w.fs.next :: w.files⟩
      obtain ⟨hnew, hedits⟩ : v.Counts ∧ w.Edits [] v := h.newEntry (c := 1) rfl hname hperm.symm rfl rfl
      exact ⟨⟨(hnew.refs.perm hperm).iput, hnew.names⟩, hedits⟩

lemma Counts.remove (h : w.Counts) (he : e ∈ w.fs.entries) (hfs : w'.fs = (w.fs.delEntry e).iput e.inode)
    (hheld : w'.held = w.held) : w'.Counts ∧ w.Edits [e] w' := by
  refine ⟨⟨?_, fun f hf => ?_⟩, [], ?_, nofun⟩
  · rw [hheld, hfs]
    exact (h.refs.delEntry he).iput
  · rw [hfs] at hf
    exact h.names f (List.mem_of_mem_erase hf)
  · rw [hfs, List.append_nil]
    exact erase_eq (List.Nodup.of_map _ h.refs.single) e

lemma Counts.unlink (h : w.Counts) (hr : w.vfsUnlink i path name = .ok w') :
    w'.Counts ∧ w.Edits (w.found i path name).toList w' := by
  obtain ⟨dir, hp, hr⟩ := bind_eq_ok hr
  rw [found_ok hp]
  cases hf : w.fs.find dir name with
  | none =>
    rw [hf] at hr
    cases hr
  | some e =>
    rw [hf] at hr
    dsimp only at hr
    split_ifs at hr
    rw [tmpfsUnlink, hf] at hr
    obtain ⟨s, hs, rfl⟩ := map_eq_ok hr
    cases hs
    exact h.remove (find_spec hf).1 rfl rfl

lemma Counts.rmdir (h : w.Counts) (hr : w.vfsRmdir i path name = .ok w') :
    w'.Counts ∧ w.Edits (w.found i path name).toList w' := by
  obtain ⟨dir, hp, hr⟩ := bind_eq_ok hr
  rw [found_ok hp]
  cases hf : w.fs.find dir name with
  | none =>
    rw [hf] at hr
    cases hr
  | some e =>
    rw [hf] at hr
    dsimp only at hr
    split_ifs at hr
    rw [tmpfsRmdir, hf] at hr
    obtain ⟨s, hs, rfl⟩ := map_eq_ok hr
    dsimp only at hs
    split_ifs at hs
    cases hs
    exact h.remove (find_spec hf).1 rfl rfl

lemma Edits.move {d : TmpfsDirent} (h : w.Counts) {gone : List TmpfsDirent}
    {s : TmpfsDirs} (hs : s.entries = w.fs.entries.filter (· ∉ gone)) {ndir : ℕ} {nname : String}
    (hnew : ⟨ndir, nname, d.inode⟩ ∉ d :: gone) (hfs : w'.fs = s.move d ndir nname) : w.Edits (d :: gone) w' := by
  refine ⟨[⟨ndir, nname, d.inode⟩], ?_, fun e he => List.mem_singleton.1 he ▸ hnew⟩
  rw [hfs, move_entries, hs, erase_eq ((List.Nodup.of_map _ h.refs.single).filter _), List.filter_filter]
  congr 1
  refine List.filter_congr fun f _ => ?_
  by_cases hf : f = d <;> simp [hf]

lemma Counts.rename (h : w.Counts) {src dst : TreePath} {oname nname : String} {k : ℕ}
    (hr : w.vfsRename i src oname dst nname k = .ok w') :
    w'.Counts ∧ w.Edits (w.removes (.rename i src oname dst nname k)) w' := by
  obtain ⟨odir, hpo, hr⟩ := bind_eq_ok hr
  obtain ⟨ndir, hpn, hr⟩ := bind_eq_ok hr
  obtain ⟨s, hs, rfl⟩ := map_eq_ok hr
  have hname := withParent_name hpn
  rw [removes, found_ok hpo, found_ok hpn]
  rw [tmpfsRename] at hs
  cases hf : w.fs.find odir oname with
  | none =>
    rw [hf] at hs
    cases hs
  | some d =>
    obtain ⟨hmem, hdo, hdn⟩ := find_spec hf
    rw [hf] at hs
    dsimp only at hs
    by_cases hsame : w.fs.find ndir nname = some d
    · rw [if_pos hsame] at hs
      cases hs
      rw [if_pos hsame.symm]
      exact ⟨h, .rfl rfl⟩
    rw [if_neg hsame] at hs
    rw [if_neg (Ne.symm hsame)]
    have hplace : (⟨ndir, nname, d.inode⟩ : TmpfsDirent) ≠ d := by
      intro heq
      rw [← heq] at hdo hdn
      exact hsame (by rw [← hf, ← hdo, ← hdn])
    generalize (if w.fs.isDir d.inode then w.fs.climb d.inode k (some ndir) else .ok false) = v at hs
    cases v with
    | error err => cases hs
    | ok b =>
      cases b with
      | true => cases hs
      | false =>
        cases ht : w.fs.find ndir nname with
        | none =>
          rw [ht] at hs
          cases hs
          refine ⟨⟨?_, fun e he => ?_⟩, Edits.move h ?_ (by simpa using hplace) rfl⟩
          · show TmpfsDirs.Counted _ ((w.fs.move d ndir nname).root :: _)
            rw [move_root]
            exact h.refs.move hmem ndir nname
          · rw [move_entries] at he
            rcases List.mem_append.1 he with he | he
            · exact h.names e (List.mem_of_mem_erase he)
            · exact List.mem_singleton.1 he ▸ hname
          · exact (List.filter_eq_self.2 fun e _ => by simp).symm
        | some t =>
          obtain ⟨htmem, -, -⟩ := find_spec ht
          have hne : t ≠ d := fun he => hsame (by rw [ht, he])
          rw [ht] at hs
          dsimp only at hs
          split_ifs at hs
          cases hs
          let v : TreeUsers := { w with fs := (w.fs.delEntry t).iput t.inode }
          have hremove : v.Counts ∧ w.Edits [t] v := h.remove htmem rfl rfl
          have hmem' : d ∈ (w.fs.entries.erase t) := (List.mem_erase_of_ne (Ne.symm hne)).2 hmem
          have hnot : (⟨ndir, nname, d.inode⟩ : TmpfsDirent) ≠ t := by
            intro heq
            exact hne (h.refs.single_inj htmem hmem (by rw [← heq]))
          refine ⟨⟨?_, fun e he => ?_⟩, Edits.move h
            (erase_eq (List.Nodup.of_map _ h.refs.single) t) (by simp [hplace, hnot]) rfl⟩
          · show TmpfsDirs.Counted _ ((((w.fs.delEntry t).iput t.inode).move d ndir nname).root :: _)
            rw [move_root]
            exact hremove.1.refs.move hmem' ndir nname
          · rw [move_entries] at he
            rcases List.mem_append.1 he with he | he
            · exact h.names e (List.mem_of_mem_erase (List.mem_of_mem_erase he))
            · exact List.mem_singleton.1 he ▸ hname

lemma Counts.chdir (h : w.Counts) (hr : w.chdir i path = .ok w') : w'.Counts ∧ w.Edits [] w' := by
  obtain ⟨n, hl, hr⟩ := bind_eq_ok hr
  obtain ⟨y, hy⟩ := h.lookup hl
  split_ifs at hr
  cases hi : w.cwds[i]? with
  | none =>
    rw [hi] at hr
    cases hr
  | some cwd =>
    rw [hi] at hr
    cases hr
    refine ⟨⟨?_, h.names⟩, .rfl rfl⟩
    exact ((h.refs.iget hy).perm (chdir_perm hi)).iput

lemma Counts.close (h : w.Counts) (hr : w.close j = .ok w') : w'.Counts ∧ w.Edits [] w' := by
  rw [TreeUsers.close] at hr
  cases hj : w.files[j]? with
  | none =>
    rw [hj] at hr
    cases hr
  | some n =>
    rw [hj] at hr
    cases hr
    exact ⟨⟨(h.refs.perm (close_perm hj)).iput, h.names⟩, .rfl rfl⟩

lemma Counts.call (h : w.Counts) (hr : w.call a = .ok w') : w'.Counts ∧ w.Edits (w.removes a) w' := by
  cases a with
  | mkdir i path name room => exact h.mkdir hr
  | opens i path writing file =>
    obtain ⟨n, hl, hr⟩ := bind_eq_ok hr
    obtain ⟨y, hy⟩ := h.lookup hl
    exact h.openInode hy hr
  | creat i path name excl writing room file => exact h.creat hr
  | close j => exact h.close hr
  | chdir i path => exact h.chdir hr
  | unlink i path name => exact h.unlink hr
  | rmdir i path name => exact h.rmdir hr
  | rename i src oname dst nname k => exact h.rename hr

end Calls

end TreeUsers

end MyOS.Fs
