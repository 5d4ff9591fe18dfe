import MyOS.Fs.InodeRefs
import MyOS.Library.AssocLists

/-! The references before and after each change that the VFS makes, and `iput` when the last one
goes. -/

namespace MyOS.Fs.VfsState

open Library.AssocLists Function

variable {s t : VfsState} {n m i p r : ℕ} {x : MemInode} {e : TmpfsDirent}

section Holders

lemma modify_inode (f : MemInode → MemInode) (k : ℕ) :
    (s.modify n f).inode k = if k = n then (s.inode k).map f else s.inode k := by
  by_cases hk : k = n
  · subst hk
    rw [if_pos rfl]
    exact update_self _ _ _
  · rw [if_neg hk]
    exact update_of_ne hk _ _
lemma holders_iget : (s.iget n).holders m = s.holders m + [n].count m := by
  have hl := count_cons_eq n m s.locals
  simp only [holders, iget, modify, setInode]
  omega

lemma holders_newInode : (s.newInode x).holders m = s.holders m + [s.next].count m := by
  have hl := count_cons_eq s.next m s.locals
  simp only [holders, newInode, setInode]
  omega

lemma holders_addEntry (h : e.inode ∈ s.locals) : (s.addEntry e).holders m = s.holders m := by
  have hl := count_erase_add h m
  simp only [holders, addEntry, List.map_append, List.count_append, List.map_cons, List.map_nil]
  omega

lemma holders_delEntry (h : e ∈ s.entries) : (s.delEntry e).holders m = s.holders m := by
  have he := count_map_erase_add h TmpfsDirent.inode m
  have hl := count_cons_eq e.inode m s.locals
  simp only [holders, delEntry]
  omega

lemma holders_giveFile (h : n ∈ s.locals) : (s.giveFile n).holders m = s.holders m := by
  have hl := count_erase_add h m
  have hf := count_cons_eq n m s.files
  simp only [holders, giveFile]
  omega

lemma holders_takeFile (h : n ∈ s.files) : (s.takeFile n).holders m = s.holders m := by
  have hf := count_erase_add h m
  have hl := count_cons_eq n m s.locals
  simp only [holders, takeFile]
  omega

lemma holders_giveCwd (h : n ∈ s.locals) : (s.giveCwd n).holders m = s.holders m := by
  have hl := count_erase_add h m
  have hc := count_cons_eq n m s.cwds
  simp only [holders, giveCwd]
  omega

lemma holders_takeCwd (h : n ∈ s.cwds) : (s.takeCwd n).holders m = s.holders m := by
  have hc := count_erase_add h m
  have hl := count_cons_eq n m s.locals
  simp only [holders, takeCwd]
  omega

lemma holders_giveRoot (h : r ∈ s.locals) : (s.giveRoot i r).holders m = s.holders m := by
  have hl := count_erase_add h m
  simp only [holders, giveRoot, List.map_append, List.count_append, List.map_cons, List.map_nil]
  omega

lemma holders_setMounted (h : r ∈ s.locals) : (s.setMounted p r).holders m = s.holders m := by
  have hl := count_erase_add h m
  simp only [holders, setMounted, List.map_append, List.count_append, List.map_cons, List.map_nil]
  omega

lemma holders_setCovered (h : p ∈ s.locals) : (s.setCovered r p).holders m = s.holders m := by
  have hl := count_erase_add h m
  simp only [holders, setCovered, List.map_append, List.count_append, List.map_cons, List.map_nil]
  omega

lemma holders_addMount (h : p ∈ s.locals) : (s.addMount i p).holders m = s.holders m := by
  have hl := count_erase_add h m
  have hm : (s.mounts ++ [(⟨i, some p⟩ : MountEntry)]).filterMap MountEntry.mountpoint =
      s.mounts.filterMap MountEntry.mountpoint ++ [p] := by
    rw [List.filterMap_append]
    rfl
  simp only [holders, addMount, hm, List.count_append]
  omega

lemma holders_clearMounted (hk : (s.mounted.map Prod.fst).Nodup) (h : (p, r) ∈ s.mounted) :
    (s.clearMounted p r).holders m = s.holders m := by
  have hf := count_filter_add hk h m
  have hl := count_cons_eq r m s.locals
  simp only [holders, clearMounted]
  omega

lemma holders_clearCovered (hk : (s.covered.map Prod.fst).Nodup) (h : (r, p) ∈ s.covered) :
    (s.clearCovered r p).holders m = s.holders m := by
  have hf := count_filter_add hk h m
  have hl := count_cons_eq p m s.locals
  simp only [holders, clearCovered]
  omega

lemma holders_delMount (h : ⟨i, some p⟩ ∈ s.mounts) :
    (s.delMount i p).holders m = s.holders m := by
  have hl := count_cons_eq p m s.locals
  have hm : (s.mounts.filterMap MountEntry.mountpoint).count m =
      (p :: (s.mounts.erase ⟨i, some p⟩).filterMap MountEntry.mountpoint).count m := by
    rw [((List.perm_cons_erase h).filterMap MountEntry.mountpoint).count_eq m]
    rfl
  have hp := count_cons_eq p m ((s.mounts.erase ⟨i, some p⟩).filterMap MountEntry.mountpoint)
  simp only [holders, delMount]
  omega

lemma holders_local (h : n ∈ s.locals) : 0 < s.holders n := by
  have hl := List.count_pos_iff.2 h
  unfold holders
  omega

lemma holders_mounted (h : (p, n) ∈ s.mounted) : 0 < s.holders n := by
  have hm := List.count_pos_iff.2 (List.mem_map.2 ⟨_, h, rfl⟩ : n ∈ s.mounted.map Prod.snd)
  unfold holders
  omega

lemma holders_covered (h : (r, n) ∈ s.covered) : 0 < s.holders n := by
  have hc := List.count_pos_iff.2 (List.mem_map.2 ⟨_, h, rfl⟩ : n ∈ s.covered.map Prod.snd)
  unfold holders
  omega

lemma holders_rootInode : 0 < s.holders s.rootInode := by
  have hr := List.count_pos_iff.2 (List.mem_singleton.2 rfl : s.rootInode ∈ [s.rootInode])
  unfold holders
  omega

lemma holders_cwd (h : n ∈ s.cwds) : 0 < s.holders n := by
  have hc := List.count_pos_iff.2 h
  unfold holders
  omega

def Placed (s : VfsState) (n : ℕ) : Prop :=
  s.InTree n ∨ ∃ i, ⟨i, some n⟩ ∈ s.mounts

lemma Placed.lt_holders (h : s.Placed n) : s.locals.count n < s.holders n := by
  obtain (hr | ⟨e, he, rfl⟩) | ⟨i, hi⟩ := h
  · have hc := List.count_pos_iff.2 hr
    unfold holders
    omega
  · have hc := List.count_pos_iff.2 (List.mem_map_of_mem (f := TmpfsDirent.inode) he)
    unfold holders
    omega
  · have hc := List.count_pos_iff.2 (List.mem_filterMap.2 ⟨_, hi, rfl⟩ :
      n ∈ s.mounts.filterMap MountEntry.mountpoint)
    unfold holders
    omega

end Holders

structure Counted (s : VfsState) : Prop where
  refcount : ∀ n x, s.inode n = some x → x.refcount = s.holders n
  positive : ∀ n x, s.inode n = some x → 0 < s.holders n
  held : ∀ n, 0 < s.holders n → ∃ x, s.inode n = some x
  fresh : ∀ n, s.next ≤ n → s.inode n = none
  no_fault : s.fault = false

lemma Counted.right (h : s.Counted) : s.RefsRight where
  refcount := h.refcount
  positive n x hx := by
    rw [h.refcount n x hx]
    exact_mod_cast h.positive n x hx
  held := h.held
  no_fault := h.no_fault

namespace Counted

lemma of_holders (h : s.Counted) (hi : t.inode = s.inode) (hn : t.next = s.next)
    (hf : t.fault = s.fault) (hh : ∀ n, t.holders n = s.holders n) : t.Counted := by
  refine ⟨?_, ?_, ?_, ?_, ?_⟩
  · intro n x hx
    rw [hi] at hx
    rw [hh, h.refcount n x hx]
  · intro n x hx
    rw [hi] at hx
    rw [hh]
    exact h.positive n x hx
  · intro n hn
    rw [hi]
    exact h.held n (by rwa [← hh])
  · intro n hle
    rw [hi]
    exact h.fresh n (by rwa [← hn])
  · rw [hf, h.no_fault]

lemma goto (h : s.Counted) (c : VfsCall) : (s.goto c).Counted :=
  h.of_holders rfl rfl rfl fun _ => rfl

lemma lt_next (h : s.Counted) (hx : s.inode n = some x) : n < s.next := by
  by_contra hle
  rw [h.fresh n (not_lt.1 hle)] at hx
  cases hx

lemma holders_next (h : s.Counted) : s.holders s.next = 0 := by
  by_contra hne
  obtain ⟨x, hx⟩ := h.held s.next (Nat.pos_of_ne_zero hne)
  exact absurd (h.lt_next hx) (lt_irrefl _)

lemma modify (h : s.Counted) {f : MemInode → MemInode} (hf : ∀ x, (f x).refcount = x.refcount) :
    (s.modify n f).Counted := by
  have hinode : ∀ k y, (s.modify n f).inode k = some y →
      ∃ x, s.inode k = some x ∧ y.refcount = x.refcount := by
    intro k y hy
    rw [modify_inode] at hy
    split_ifs at hy
    · obtain ⟨x, hx, rfl⟩ := Option.map_eq_some_iff.1 hy
      exact ⟨x, hx, hf x⟩
    · exact ⟨y, hy, rfl⟩
  refine ⟨?_, ?_, ?_, ?_, h.no_fault⟩
  · intro k y hy
    obtain ⟨x, hx, heq⟩ := hinode k y hy
    rw [heq]
    exact h.refcount k x hx
  · intro k y hy
    obtain ⟨x, hx, -⟩ := hinode k y hy
    exact h.positive k x hx
  · intro k hk
    obtain ⟨x, hx⟩ := h.held k hk
    rw [modify_inode, hx]
    split_ifs
    · exact ⟨f x, rfl⟩
    · exact ⟨x, rfl⟩
  · intro k hk
    rw [modify_inode, h.fresh k hk]
    exact ite_self none

lemma iget (h : s.Counted) (hx : s.inode n = some x) : (s.iget n).Counted := by
  refine ⟨?_, ?_, ?_, ?_, ?_⟩
  · intro k y hy
    rw [holders_iget]
    change (s.modify n _).inode k = some y at hy
    rw [modify_inode] at hy
    split_ifs at hy with hk
    · obtain ⟨z, hz, rfl⟩ := Option.map_eq_some_iff.1 hy
      subst hk
      rw [List.count_singleton_self]
      push_cast
      rw [h.refcount k z hz]
    · rw [List.count_singleton, if_neg (by simpa using Ne.symm hk), add_zero]
      exact h.refcount k y hy
  · intro k y hy
    rw [holders_iget]
    change (s.modify n _).inode k = some y at hy
    rw [modify_inode] at hy
    split_ifs at hy with hk
    · obtain ⟨z, hz, -⟩ := Option.map_eq_some_iff.1 hy
      exact Nat.add_pos_left (h.positive k z hz) _
    · exact Nat.add_pos_left (h.positive k y hy) _
  · intro k hk
    rw [holders_iget] at hk
    change ∃ y, (s.modify n _).inode k = some y
    rw [modify_inode]
    split_ifs with hkn
    · subst hkn
      exact ⟨_, by rw [hx]; rfl⟩
    · rw [List.count_singleton, if_neg (by simpa using Ne.symm hkn), add_zero] at hk
      exact h.held k hk
  · intro k hk
    change (s.modify n _).inode k = none
    rw [modify_inode, h.fresh k hk]
    exact ite_self none
  · change (s.fault || (s.inode n).isNone) = false
    rw [h.no_fault, hx]
    rfl

lemma newInode (h : s.Counted) (hx : x.refcount = 1) : (s.newInode x).Counted := by
  have hnext := h.holders_next
  refine ⟨?_, ?_, ?_, ?_, h.no_fault⟩
  · intro k y hy
    rw [holders_newInode]
    change update s.inode s.next (some x) k = some y at hy
    by_cases hk : k = s.next
    · subst hk
      rw [update_self, Option.some.injEq] at hy
      subst hy
      rw [hnext, List.count_singleton_self, hx]
      rfl
    · rw [update_of_ne hk] at hy
      rw [List.count_singleton, if_neg (by simpa using Ne.symm hk), add_zero]
      exact h.refcount k y hy
  · intro k y hy
    rw [holders_newInode]
    change update s.inode s.next (some x) k = some y at hy
    by_cases hk : k = s.next
    · subst hk
      rw [List.count_singleton_self]
      exact Nat.succ_pos _
    · rw [update_of_ne hk] at hy
      exact Nat.add_pos_left (h.positive k y hy) _
  · intro k hk
    rw [holders_newInode] at hk
    change ∃ y, update s.inode s.next (some x) k = some y
    by_cases hkn : k = s.next
    · subst hkn
      exact ⟨x, update_self _ _ _⟩
    · rw [List.count_singleton, if_neg (by simpa using Ne.symm hkn), add_zero] at hk
      rw [update_of_ne hkn]
      exact h.held k hk
  · intro k hk
    change update s.inode s.next (some x) k = none
    change s.next + 1 ≤ k at hk
    rw [update_of_ne (by omega)]
    exact h.fresh k (by omega)

end Counted

section Iput

structure Kept (s : VfsState) : Prop where
  entered : ∀ e ∈ s.entries, s.InTree e.dir
  mounted : ∀ a ∈ s.mounted, ∃ i, ⟨i, some a.1⟩ ∈ s.mounts
  covered : ∀ a ∈ s.covered, a.1 ∈ s.roots.map Prod.snd

def drop (s : VfsState) (n : ℕ) : VfsState :=
  { s with
    inode := update s.inode n (if s.holders n = 1 then none else
      (s.inode n).map fun x => { x with refcount := x.refcount - 1 })
    locals := s.locals.erase n }

lemma holders_drop (h : n ∈ s.locals) : (s.drop n).holders m + [n].count m = s.holders m := by
  have hl := count_erase_add h m
  simp only [holders, drop]
  omega

lemma freeInode_of_empty (he : s.entries.filter (fun e => e.dir ≠ n) = s.entries)
    (hm : s.mounted.filter (fun a => a.1 ≠ n) = s.mounted)
    (hc : s.covered.filter (fun a => a.1 ≠ n) = s.covered) :
    s.freeInode n = s.setInode n none := by
  unfold freeInode
  rw [he, hm, hc]
  rfl

lemma iput_eq_drop (h : s.Counted) (hk : s.Kept) (hn : n ∈ s.locals) : s.iput n = s.drop n := by
  have hpos := holders_local hn
  obtain ⟨x, hx⟩ := h.held n hpos
  have hr := h.refcount n x hx
  have hlocal := List.count_pos_iff.2 hn
  by_cases hlast : s.holders n = 1
  · have hfree : ¬ s.Placed n := by
      intro hp
      have := hp.lt_holders
      omega
    have he : s.entries.filter (fun e => e.dir ≠ n) = s.entries := by
      apply List.filter_eq_self.2
      intro e he
      apply decide_eq_true
      rintro rfl
      exact hfree (.inl (hk.entered e he))
    have hm : s.mounted.filter (fun a => a.1 ≠ n) = s.mounted := by
      apply filter_ne_eq_self
      rintro a ha rfl
      exact hfree (.inr (hk.mounted a ha))
    have hc : s.covered.filter (fun a => a.1 ≠ n) = s.covered := by
      apply filter_ne_eq_self
      rintro a ha rfl
      exact hfree (.inl (.inl (hk.covered a ha)))
    simp only [iput, hx]
    rw [if_neg (by omega), if_neg (by omega)]
    refine Eq.trans (freeInode_of_empty he hm hc) ?_
    unfold drop
    rw [if_pos hlast]
    rfl
  · simp only [iput, hx]
    rw [if_pos (by omega)]
    simp only [setInode, drop, hlast, if_false, hx, Option.map_some]

lemma Counted.drop (h : s.Counted) (hn : n ∈ s.locals) : (s.drop n).Counted := by
  have hinode : ∀ k y, (s.drop n).inode k = some y → ∃ x, s.inode k = some x ∧
      y.refcount = x.refcount - [n].count k ∧ 1 < s.holders k + (if k = n then 0 else 1) := by
    intro k y hy
    change update s.inode n _ k = some y at hy
    by_cases hk : k = n
    · subst hk
      rw [update_self] at hy
      split_ifs at hy with hlast
      obtain ⟨x, hx, rfl⟩ := Option.map_eq_some_iff.1 hy
      have hpos := h.positive k x hx
      refine ⟨x, hx, ?_, ?_⟩
      · rw [List.count_singleton_self]
        rfl
      · rw [if_pos rfl]
        omega
    · rw [update_of_ne hk] at hy
      have hpos := h.positive k y hy
      refine ⟨y, hy, ?_, ?_⟩
      · rw [List.count_singleton, if_neg (by simpa using Ne.symm hk)]
        exact (sub_zero _).symm
      · rw [if_neg hk]
        omega
  have hsingle : ∀ k, [n].count k = if k = n then 1 else 0 := by
    intro k
    by_cases hk : k = n
    · rw [if_pos hk, hk, List.count_singleton_self]
    · rw [if_neg hk, List.count_singleton, if_neg (by simpa using Ne.symm hk)]
  refine ⟨?_, ?_, ?_, ?_, h.no_fault⟩
  · intro k y hy
    obtain ⟨x, hx, heq, -⟩ := hinode k y hy
    rw [heq, h.refcount k x hx, ← holders_drop hn]
    push_cast
    ring
  · intro k y hy
    obtain ⟨x, -, -, hlt⟩ := hinode k y hy
    have hd := holders_drop (m := k) hn
    rw [hsingle] at hd
    split_ifs at hd hlt <;> omega
  · intro k hk
    have hd := holders_drop (m := k) hn
    obtain ⟨x, hx⟩ := h.held k (by omega)
    change ∃ y, update s.inode n _ k = some y
    rw [hsingle] at hd
    by_cases hkn : k = n
    · subst hkn
      rw [if_pos rfl] at hd
      rw [update_self, if_neg (by omega), hx]
      exact ⟨_, rfl⟩
    · rw [update_of_ne hkn]
      exact ⟨x, hx⟩
  · intro k hk
    have hnone := h.fresh k hk
    change update s.inode n _ k = none
    by_cases hkn : k = n
    · subst hkn
      rw [update_self, hnone]
      exact ite_self none
    · rw [update_of_ne hkn, hnone]

end Iput

end MyOS.Fs.VfsState
