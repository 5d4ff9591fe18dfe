import MyOS.Fs.TmpfsDirs
import MyOS.Library.Forest

/-! What the operations of tmpfs keep: the counts of references and, as long as no directory is freed
that another one in use is below of, the parents. -/

namespace MyOS.Fs

open Library Forest Relation Function

namespace TmpfsDirs

variable {s : TmpfsDirs} {l l' : List ℕ} {n d p x dir ndir k : ℕ} {e t : TmpfsDirent} {name : String} {y : DirNode}

def parentOf (s : TmpfsDirs) (n : ℕ) : Option ℕ := (s.inode n).bind DirNode.parent

def refs (s : TmpfsDirs) (n : ℕ) : ℕ := (s.inode n).elim 0 DirNode.refcount

def Sound (s : TmpfsDirs) (d : ℕ) : Prop := ∀ b, Reaches s.parentOf d b → (s.inode b).isSome = true

structure Counted (s : TmpfsDirs) (l : List ℕ) : Prop where
  counted : ∀ n, s.refs n = (s.entries.map TmpfsDirent.inode).count n + l.count n
  positive : ∀ n y, s.inode n = some y → 0 < y.refcount
  fresh : ∀ n, s.next ≤ n → s.inode n = none
  single : (s.entries.map TmpfsDirent.inode).Nodup

structure Tree (s : TmpfsDirs) (l : List ℕ) : Prop extends Counted s l where
  named : ∀ e ∈ s.entries, s.isDir e.inode = true → s.parentOf e.inode = some e.dir
  file : ∀ n, s.isDir n = false → s.parentOf n = none
  above : ∀ n p, s.parentOf n = some p → p < s.next ∧ ((s.inode p).isSome = true → s.isDir p = true)
  top : s.parentOf s.root = none ∧ s.root ∈ l
  acyclic : Acyclic s.parentOf
  sound : ∀ h ∈ l, s.Sound h

lemma parentOf_some (hn : s.inode n = some y) : s.parentOf n = y.parent := by
  rw [parentOf, hn]
  rfl

lemma refs_some (hn : s.inode n = some y) : s.refs n = y.refcount := by
  rw [refs, hn]
  rfl

lemma isDir_some (hn : s.inode n = some y) : s.isDir n = y.isDir := by
  rw [isDir, hn]
  rfl

section SetInode

variable {o : Option DirNode} {m : ℕ}

lemma inode_setInode : (s.setInode n o).inode m = if m = n then o else s.inode m := update_apply ..

lemma parentOf_setInode : (s.setInode n o).parentOf m = if m = n then o.bind DirNode.parent else s.parentOf m := by
  rw [parentOf, inode_setInode]
  split_ifs <;> rfl

lemma refs_setInode : (s.setInode n o).refs m = if m = n then o.elim 0 DirNode.refcount else s.refs m := by
  rw [refs, inode_setInode]
  split_ifs <;> rfl

lemma isDir_setInode : (s.setInode n o).isDir m = if m = n then o.any DirNode.isDir else s.isDir m := by
  rw [isDir, inode_setInode]
  split_ifs <;> rfl

lemma iget_some (hn : s.inode n = some y) : s.iget n = s.setInode n (some { y with refcount := y.refcount + 1 }) := by
  rw [iget, hn]
  rfl

lemma iput_last (hn : s.inode n = some y) (hone : y.refcount ≤ 1) : s.iput n = s.setInode n none := by
  rw [iput, hn, Option.bind_some, if_pos hone]

lemma iput_more (hn : s.inode n = some y) (hone : ¬ y.refcount ≤ 1) :
    s.iput n = s.setInode n (some { y with refcount := y.refcount - 1 }) := by
  rw [iput, hn, Option.bind_some, if_neg hone]

lemma setParent_some (hn : s.inode n = some y) : s.setParent n p = s.setInode n (some { y with parent := some p }) := by
  rw [setParent, hn]
  rfl

end SetInode

lemma Sound.self (h : s.Sound d) : ∃ y, s.inode d = some y := Option.isSome_iff_exists.1 (h d .refl)

lemma Sound.parent (h : s.Sound d) (hp : s.parentOf d = some p) : s.Sound p :=
  fun b hb => h b (.head hp hb)

lemma find_spec (hf : s.find dir name = some e) : e ∈ s.entries ∧ e.dir = dir ∧ e.name = name := by
  have hmem := List.mem_of_find?_eq_some hf
  have hkey := List.find?_some hf
  simp only [decide_eq_true_eq] at hkey
  exact ⟨hmem, hkey⟩

lemma alloc_of_refs (h : 0 < s.refs n) : ∃ y, s.inode n = some y := by
  cases hn : s.inode n with
  | none =>
    rw [refs, hn] at h
    exact absurd h (Nat.lt_irrefl 0)
  | some y => exact ⟨y, rfl⟩

lemma move_root (d : TmpfsDirent) (ndir : ℕ) (nname : String) : (s.move d ndir nname).root = s.root := by
  rw [move]
  split_ifs <;> rfl

lemma move_entries (d : TmpfsDirent) (ndir : ℕ) (nname : String) :
    (s.move d ndir nname).entries = s.entries.erase d ++ [⟨ndir, nname, d.inode⟩] := by
  rw [move]
  split_ifs <;> rfl

namespace Counted

lemma perm (h : Counted s l) (hl : l.Perm l') : Counted s l' :=
  { h with counted := fun n => by rw [h.counted, hl.count_eq] }

lemma alloc_entry (h : Counted s l) (he : e ∈ s.entries) : ∃ y, s.inode e.inode = some y := by
  have hpos : 0 < (s.entries.map TmpfsDirent.inode).count e.inode :=
    List.count_pos_iff.2 (List.mem_map_of_mem he)
  refine alloc_of_refs ?_
  rw [h.counted]
  omega

lemma alloc_held (h : Counted s l) (hn : n ∈ l) : ∃ y, s.inode n = some y := by
  have hpos : 0 < l.count n := List.count_pos_iff.2 hn
  refine alloc_of_refs ?_
  rw [h.counted]
  omega

lemma ne_next (h : Counted s l) (hn : s.inode n = some y) : n ≠ s.next := by
  rintro rfl
  rw [h.fresh _ le_rfl] at hn
  cases hn

lemma single_inj (h : Counted s l) (he : e ∈ s.entries) (ht : t ∈ s.entries) (heq : e.inode = t.inode) : e = t :=
  List.inj_on_of_nodup_map h.single he ht heq

lemma recount (h : Counted s l) (hy : s.inode n = some y) {c : ℕ} (hc : 0 < c)
    (hcount : ∀ m, (if m = n then c else s.refs m) = (s.entries.map TmpfsDirent.inode).count m + l'.count m) :
    Counted (s.setInode n (some { y with refcount := c })) l' := by
  refine ⟨fun m => ?_, fun m z hz => ?_, fun m hm => ?_, h.single⟩
  · rw [refs_setInode]
    exact hcount m
  · rw [inode_setInode] at hz
    split_ifs at hz
    · cases hz
      exact hc
    · exact h.positive m z hz
  · rw [inode_setInode]
    split_ifs with hmn
    · rw [hmn] at hm
      rw [h.fresh n hm] at hy
      cases hy
    · exact h.fresh m hm

lemma iget (h : Counted s l) (hy : s.inode n = some y) : Counted (s.iget n) (n :: l) := by
  rw [iget_some hy]
  refine h.recount hy (Nat.succ_pos _) fun m => ?_
  rw [List.count_cons, ← Nat.add_assoc, ← h.counted]
  by_cases hm : m = n
  · rw [hm, if_pos rfl, if_pos (by simp), refs_some hy]
  · rw [if_neg hm, if_neg (by simpa using Ne.symm hm), Nat.add_zero]

lemma not_held (h : Counted s (n :: l)) (hone : s.refs n = 1) :
    (s.entries.map TmpfsDirent.inode).count n = 0 ∧ l.count n = 0 := by
  have hc := h.counted n
  rw [hone, List.count_cons_self] at hc
  omega

lemma free (h : Counted s (n :: l)) (hone : s.refs n = 1) : Counted (s.setInode n none) l := by
  obtain ⟨hentries, hl⟩ := h.not_held hone
  refine ⟨fun m => ?_, fun m z hz => ?_, fun m hm => ?_, h.single⟩
  · have hc := h.counted m
    rw [refs_setInode]
    by_cases hm : m = n
    · subst hm
      rw [if_pos rfl]
      exact (congrArg₂ (· + ·) hentries hl).symm
    · rw [List.count_cons, if_neg (by simpa using Ne.symm hm), Nat.add_zero] at hc
      rw [if_neg hm]
      exact hc
  · rw [inode_setInode] at hz
    split_ifs at hz
    exact h.positive m z hz
  · rw [inode_setInode]
    split_ifs
    · rfl
    · exact h.fresh m hm

lemma drop (h : Counted s (n :: l)) (hy : s.inode n = some y) (hone : ¬ y.refcount ≤ 1) :
    Counted (s.setInode n (some { y with refcount := y.refcount - 1 })) l := by
  refine h.recount hy (by omega) fun m => ?_
  have hc := h.counted m
  rw [List.count_cons] at hc
  by_cases hm : m = n
  · rw [hm, if_pos (by simp), refs_some hy] at hc
    rw [hm, if_pos rfl]
    omega
  · rw [if_neg (by simpa using Ne.symm hm), Nat.add_zero] at hc
    rw [if_neg hm, hc]

lemma iput (h : Counted s (n :: l)) : Counted (s.iput n) l := by
  obtain ⟨y, hy⟩ := h.alloc_held List.mem_cons_self
  have hpos := h.positive n y hy
  by_cases hone : y.refcount ≤ 1
  · rw [iput_last hy hone]
    exact h.free (by rw [refs_some hy]; omega)
  · rw [iput_more hy hone]
    exact h.drop hy hone

lemma delEntry (h : Counted s l) (he : e ∈ s.entries) : Counted (s.delEntry e) (e.inode :: l) := by
  refine ⟨fun m => ?_, h.positive, h.fresh, h.single.sublist (List.erase_sublist.map _)⟩
  have hperm := ((List.perm_cons_erase he).map TmpfsDirent.inode).count_eq m
  rw [List.map_cons, List.count_cons] at hperm
  have hc := h.counted m
  rw [List.count_cons]
  show s.refs m = ((s.entries.erase e).map _).count m + _
  omega

lemma newEntry (h : Counted s l) {c : ℕ} {x : DirNode} (hx : x.refcount = c + 1) (dir : ℕ) (name : String) :
    Counted (s.newEntry dir name x) (List.replicate c s.next ++ l) := by
  have hnone := h.fresh s.next le_rfl
  have hinode : ∀ m, (s.newEntry dir name x).inode m = if m = s.next then some x else s.inode m :=
    fun m => update_apply ..
  have hzero : (s.entries.map TmpfsDirent.inode).count s.next = 0 ∧ l.count s.next = 0 := by
    have hcount := h.counted s.next
    rw [refs, hnone] at hcount
    simp only [Option.elim_none] at hcount
    omega
  have hentries : (s.newEntry dir name x).entries.map TmpfsDirent.inode =
      s.entries.map TmpfsDirent.inode ++ [s.next] := by
    simp only [TmpfsDirs.newEntry, List.map_append, List.map_cons, List.map_nil]
  refine ⟨fun m => ?_, fun m z hz => ?_, fun m hm => ?_, ?_⟩
  · have hcount := h.counted m
    rw [hentries, List.count_append, List.count_append, List.count_replicate, List.count_singleton, refs, hinode]
    by_cases hm : m = s.next
    · subst hm
      rw [if_pos rfl, hzero.1, hzero.2, if_pos (by simp), if_pos (by simp), Option.elim_some, hx]
      omega
    · rw [if_neg hm, if_neg (by simpa using Ne.symm hm), if_neg (by simpa using Ne.symm hm)]
      show s.refs m = _
      omega
  · rw [hinode] at hz
    split_ifs at hz
    · cases hz
      exact hx ▸ Nat.succ_pos _
    · exact h.positive m z hz
  · have hlt : s.next + 1 ≤ m := hm
    rw [hinode, if_neg (by omega)]
    exact h.fresh m (by omega)
  · rw [hentries]
    refine List.nodup_append.2 ⟨h.single, List.nodup_singleton _, fun a ha b hb => ?_⟩
    rintro rfl
    obtain rfl := List.mem_singleton.1 hb
    exact absurd hzero.1 (Nat.ne_of_gt (List.count_pos_iff.2 ha))

lemma move_perm (he : e ∈ s.entries) (ndir : ℕ) (name : String) :
    ((s.move e ndir name).entries.map TmpfsDirent.inode).Perm (s.entries.map TmpfsDirent.inode) := by
  rw [move_entries, List.map_append]
  exact List.perm_append_comm.trans ((List.perm_cons_erase he).map TmpfsDirent.inode).symm

lemma move (h : Counted s l) (he : e ∈ s.entries) (ndir : ℕ) (name : String) : Counted (s.move e ndir name) l := by
  have hperm := move_perm he ndir name
  obtain ⟨y, hy⟩ := h.alloc_entry he
  have hinode : ∀ m, (s.move e ndir name).inode m = s.inode m ∨
      m = e.inode ∧ (s.move e ndir name).inode m = some { y with parent := some ndir } := by
    intro m
    rw [TmpfsDirs.move]
    split_ifs
    · rw [setParent_some (s := { s with entries := s.entries.erase e ++ [⟨ndir, name, e.inode⟩] }) hy, inode_setInode]
      split_ifs with hm
      · exact .inr ⟨hm, rfl⟩
      · exact .inl rfl
    · exact .inl rfl
  have hnext : (s.move e ndir name).next = s.next := by
    rw [TmpfsDirs.move]
    split_ifs <;> rfl
  refine ⟨fun m => ?_, fun m z hz => ?_, fun m hm => ?_, hperm.nodup_iff.2 h.single⟩
  · rw [hperm.count_eq, ← h.counted, refs]
    rcases hinode m with hm | ⟨rfl, hm⟩
    · rw [hm]
      rfl
    · rw [hm, refs_some hy]
      rfl
  · rcases hinode m with hm | ⟨rfl, hm⟩
    · exact h.positive m z (hm ▸ hz)
    · cases hm.symm.trans hz
      exact h.positive _ y hy
  · rcases hinode m with hm' | ⟨rfl, -⟩
    · rw [hm']
      exact h.fresh m (hnext ▸ hm)
    · rw [h.fresh _ (hnext ▸ hm)] at hy
      cases hy

end Counted

namespace Tree

lemma perm (h : Tree s l) (hl : l.Perm l') : Tree s l' :=
  { h with
    toCounted := h.toCounted.perm hl
    top := ⟨h.top.1, hl.mem_iff.1 h.top.2⟩
    sound := fun d hd => h.sound d (hl.mem_iff.2 hd) }

lemma sound_entry (h : Tree s l) (he : e ∈ s.entries) (hd : s.Sound e.dir) : s.Sound e.inode := by
  obtain ⟨y, hy⟩ := h.alloc_entry he
  intro b hb
  rcases ReflTransGen.cases_head hb with rfl | ⟨c, hc, hcb⟩
  · rw [hy]
    rfl
  · cases hdir : s.isDir e.inode with
    | false =>
      rw [Up, h.file _ hdir] at hc
      cases hc
    | true =>
      rw [Up, h.named e he hdir] at hc
      cases hc
      exact hd b hcb

lemma lt_next (h : Tree s l) (hd : s.Sound d) : d < s.next := by
  by_contra hge
  obtain ⟨y, hy⟩ := hd.self
  rw [h.fresh d (by omega)] at hy
  cases hy

lemma not_above (h : Tree s l) (he : e ∈ s.entries) (hd : e.dir = dir) (hdir : s.isDir dir = true) :
    ¬ Reaches s.parentOf dir e.inode := by
  intro hr
  have hmust : s.isDir e.inode = true := by
    rcases ReflTransGen.cases_tail hr with heq | ⟨c, -, hc⟩
    · rw [heq, hdir]
    · obtain ⟨y, hy⟩ := h.alloc_entry he
      exact (h.above c _ hc).2 (by rw [hy]; rfl)
  have hup : Up s.parentOf e.inode dir := hd ▸ h.named e he hmust
  exact h.acyclic _ (TransGen.head' hup hr)

lemma of_same (h : Tree s l) {s' : TmpfsDirs} (hs : Counted s' l') (hnext : s'.next = s.next)
    (halloc : ∀ n, (s'.inode n).isSome = (s.inode n).isSome) (hentries : s'.entries ⊆ s.entries)
    (hdir : ∀ n, s'.isDir n = s.isDir n) (hparent : s'.parentOf = s.parentOf) (hroot : s'.root = s.root)
    (hl : ∀ d ∈ l', s.Sound d) (htop : s.root ∈ l') : Tree s' l' where
  toCounted := hs
  named e he hd := by
    rw [hparent]
    exact h.named e (hentries he) ((hdir _).symm.trans hd)
  file n hn := by
    rw [hparent]
    exact h.file n ((hdir n).symm.trans hn)
  above n p hp := by
    rw [hparent] at hp
    rw [hnext, hdir, halloc]
    exact h.above n p hp
  top := by
    rw [hroot, hparent]
    exact ⟨h.top.1, htop⟩
  acyclic := by
    rw [hparent]
    exact h.acyclic
  sound d hd b hb := by
    rw [hparent] at hb
    rw [halloc]
    exact hl d hd b hb

lemma recount (h : Tree s l) (hy : s.inode n = some y) {c : ℕ}
    (hs : Counted (s.setInode n (some { y with refcount := c })) l')
    (hl : ∀ d ∈ l', s.Sound d) (htop : s.root ∈ l') : Tree (s.setInode n (some { y with refcount := c })) l' := by
  refine h.of_same hs rfl (fun m => ?_) (List.Subset.refl _) (fun m => ?_) ?_ rfl hl htop
  · rw [inode_setInode]
    split_ifs with hm
    · rw [hm, hy]
      rfl
    · rfl
  · rw [isDir_setInode]
    split_ifs with hm
    · rw [hm, isDir_some hy]
      rfl
    · rfl
  · funext m
    rw [parentOf_setInode]
    split_ifs with hm
    · rw [hm, parentOf_some hy]
      rfl
    · rfl

lemma iget (h : Tree s l) (hn : s.Sound n) : Tree (s.iget n) (n :: l) := by
  obtain ⟨y, hy⟩ := hn.self
  have hs := h.toCounted.iget hy
  rw [iget_some hy] at hs ⊢
  refine h.recount hy hs (fun d hd => ?_) (List.mem_cons_of_mem _ h.top.2)
  rcases List.mem_cons.1 hd with rfl | hd
  · exact hn
  · exact h.sound d hd

lemma free (h : Tree s (n :: l)) (hone : s.refs n = 1) (hroot : s.root ∈ l)
    (hclear : ∀ d ∈ l, ¬ Reaches s.parentOf d n) : Tree (s.setInode n none) l := by
  have hne : ∀ e ∈ s.entries, e.inode ≠ n := by
    rintro e he rfl
    exact absurd (h.not_held hone).1 (Nat.ne_of_gt (List.count_pos_iff.2 (List.mem_map_of_mem he)))
  have hparent : ∀ m p, (s.setInode n none).parentOf m = some p → s.parentOf m = some p := by
    intro m p hp
    rw [parentOf_setInode] at hp
    split_ifs at hp
    · cases hp
    · exact hp
  have hnone : ∀ m, s.parentOf m = none → (s.setInode n none).parentOf m = none := by
    intro m hm
    rw [parentOf_setInode, hm]
    split_ifs <;> rfl
  refine ⟨h.toCounted.free hone, fun e he hd => ?_, fun m hm => ?_, fun m p hp => ?_, ⟨hnone _ h.top.1, hroot⟩,
    h.acyclic.mono hparent, fun d hd b hb => ?_⟩
  · have hen := hne e he
    rw [isDir_setInode, if_neg hen] at hd
    rw [parentOf_setInode, if_neg hen]
    exact h.named e he hd
  · rw [isDir_setInode] at hm
    rw [parentOf_setInode]
    split_ifs at hm ⊢
    · rfl
    · exact h.file m hm
  · obtain ⟨hlt, hdir⟩ := h.above m p (hparent m p hp)
    refine ⟨hlt, fun hsome => ?_⟩
    rw [inode_setInode] at hsome
    rw [isDir_setInode]
    split_ifs at hsome ⊢
    · cases hsome
    · exact hdir hsome
  · have hb' : Reaches s.parentOf d b := ReflTransGen.mono hparent d b hb
    have hbn : b ≠ n := by
      rintro rfl
      exact hclear d hd hb'
    rw [inode_setInode, if_neg hbn]
    exact h.sound d (List.mem_cons_of_mem _ hd) b hb'

lemma clear_of_last (h : Tree s (n :: l)) (hone : s.refs n = 1)
    (hclear : ∀ d ∈ l, d ≠ n → d ≠ s.root → ¬ Reaches s.parentOf d n) : ∀ d ∈ l, ¬ Reaches s.parentOf d n := by
  have hn : n ∉ l := List.count_eq_zero.1 (h.not_held hone).2
  intro d hd hr
  have hdn : d ≠ n := fun he => hn (he ▸ hd)
  by_cases hdr : d = s.root
  · rcases ReflTransGen.cases_head hr with he | ⟨c, hc, -⟩
    · exact hdn he
    · rw [hdr, Up, h.top.1] at hc
      cases hc
  · exact hclear d hd hdn hdr hr

lemma iput (h : Tree s (n :: l)) (hroot : s.root ∈ l)
    (hclear : s.refs n = 1 → ∀ d ∈ l, d ≠ n → d ≠ s.root → ¬ Reaches s.parentOf d n) : Tree (s.iput n) l := by
  obtain ⟨y, hy⟩ := (h.sound n List.mem_cons_self).self
  have hpos := h.positive n y hy
  by_cases hone : y.refcount ≤ 1
  · rw [iput_last hy hone]
    have hlast : s.refs n = 1 := by
      rw [refs_some hy]
      omega
    exact h.free hlast hroot (h.clear_of_last hlast (hclear hlast))
  · rw [iput_more hy hone]
    exact h.recount hy (h.toCounted.drop hy hone) (fun d hd => h.sound d (List.mem_cons_of_mem _ hd)) hroot

lemma delEntry (h : Tree s l) (he : e ∈ s.entries) (hs : s.Sound e.inode) : Tree (s.delEntry e) (e.inode :: l) := by
  refine h.of_same (h.toCounted.delEntry he) rfl (fun _ => rfl) List.erase_subset (fun _ => rfl) rfl rfl
    (fun d hd => ?_) (List.mem_cons_of_mem _ h.top.2)
  rcases List.mem_cons.1 hd with rfl | hd
  · exact hs
  · exact h.sound d hd

lemma newEntry (h : Tree s l) (hd : s.Sound dir) (hdir : s.isDir dir = true) {c : ℕ}
    (hc : l' = List.replicate c s.next ++ l) {b : Bool} (name : String) :
    Tree (s.newEntry dir name ⟨b, if b then some dir else none, c + 1⟩) l' := by
  set x : DirNode := ⟨b, if b then some dir else none, c + 1⟩ with hx
  have hcounted : Counted (s.newEntry dir name x) l' := hc ▸ h.toCounted.newEntry rfl dir name
  have hinode : ∀ m, (s.newEntry dir name x).inode m = if m = s.next then some x else s.inode m :=
    fun m => update_apply ..
  have hold : ∀ m, (s.inode m).isSome = true → m ≠ s.next := by
    intro m hm
    obtain ⟨y, hy⟩ := Option.isSome_iff_exists.1 hm
    exact h.ne_next hy
  have hparent : ∀ m, (s.newEntry dir name x).parentOf m = if m = s.next then x.parent else s.parentOf m := by
    intro m
    rw [parentOf, hinode]
    split_ifs <;> rfl
  have hkind : ∀ m, (s.newEntry dir name x).isDir m = if m = s.next then b else s.isDir m := by
    intro m
    rw [TmpfsDirs.isDir, hinode]
    split_ifs <;> rfl
  have hsound : ∀ m, s.Sound m → ∀ k, Reaches (s.newEntry dir name x).parentOf m k →
      Reaches s.parentOf m k := by
    intro m hm k hk
    refine Reaches.congr hk fun c hc => ?_
    rw [hparent, if_neg (hold c (hm c hc))]
  refine ⟨hcounted, fun e he hdir' => ?_, fun m hm => ?_, fun m p hp => ?_, ⟨?_, ?_⟩, ?_, fun m hm k hk => ?_⟩
  · rw [hparent]
    rcases List.mem_append.1 he with he | he
    · obtain ⟨z, hz⟩ := h.alloc_entry he
      have hen := h.ne_next hz
      rw [hkind, if_neg hen] at hdir'
      rw [if_neg hen]
      exact h.named e he hdir'
    · obtain rfl := List.mem_singleton.1 he
      rw [hkind, if_pos rfl] at hdir'
      rw [if_pos rfl, hx, hdir']
      rfl
  · rw [hkind] at hm
    rw [hparent]
    split_ifs at hm ⊢ with hmn
    · rw [hx, hm]
      rfl
    · exact h.file m hm
  · have hup : p < s.next ∧ ((s.inode p).isSome = true → s.isDir p = true) := by
      rw [hparent] at hp
      split_ifs at hp
      · have hpd : p = dir := by
          cases b with
          | true => exact (Option.some.inj hp).symm
          | false => cases hp
        rw [hpd]
        exact ⟨h.lt_next hd, fun _ => hdir⟩
      · exact h.above m p hp
    refine ⟨hup.1.trans (Nat.lt_succ_self _), fun hsome => ?_⟩
    rw [hinode, if_neg hup.1.ne] at hsome
    rw [hkind, if_neg hup.1.ne]
    exact hup.2 hsome
  · have hroot : s.root ≠ s.next := hold _ (h.sound _ h.top.2 _ .refl)
    show (s.newEntry dir name x).parentOf s.root = none
    rw [hparent, if_neg hroot]
    exact h.top.1
  · rw [hc]
    exact List.mem_append_right _ h.top.2
  · cases b with
    | true =>
      have hupdate : (s.newEntry dir name x).parentOf = update s.parentOf s.next (some dir) := by
        funext m
        rw [hparent, update_apply]
        rfl
      rw [hupdate]
      exact h.acyclic.update fun hr => hold _ (hd _ hr) rfl
    | false =>
      refine h.acyclic.mono fun a p hap => ?_
      rw [Up, hparent] at hap
      split_ifs at hap
      · cases hap
      · exact hap
  · have halloc : ∀ k, (s.inode k).isSome = true → ((s.newEntry dir name x).inode k).isSome = true := by
      intro k hk
      rw [hinode, if_neg (hold k hk)]
      exact hk
    rw [hc] at hm
    rcases List.mem_append.1 hm with hm | hm
    · obtain rfl := List.eq_of_mem_replicate hm
      rcases ReflTransGen.cases_head hk with rfl | ⟨p, hp, hpk⟩
      · rw [hinode, if_pos rfl]
        rfl
      · have hpd : p = dir := by
          rw [Up, hparent, if_pos rfl] at hp
          cases b with
          | true => exact (Option.some.inj hp).symm
          | false => cases hp
        rw [hpd] at hpk
        exact halloc k (hd k (hsound dir hd k hpk))
    · exact halloc k (h.sound m hm k (hsound m (h.sound m hm) k hk))

lemma move (h : Tree s l) (he : e ∈ s.entries) (hd : s.Sound ndir) (hdir : s.isDir ndir = true) (name : String)
    (hout : s.isDir e.inode = true → ¬ Reaches s.parentOf ndir e.inode) : Tree (s.move e ndir name) l := by
  have hcounted := h.toCounted.move he ndir name
  have hsingle := hcounted.single
  rw [move_entries, List.map_append] at hsingle
  have hother : ∀ f ∈ s.entries.erase e, f ∈ s.entries ∧ f.inode ≠ e.inode := by
    intro f hf
    exact ⟨List.mem_of_mem_erase hf,
      (List.nodup_append.1 hsingle).2.2 _ (List.mem_map_of_mem hf) e.inode List.mem_cons_self⟩
  obtain ⟨y, hy⟩ := h.alloc_entry he
  rw [TmpfsDirs.move] at hcounted ⊢
  split_ifs at hcounted ⊢ with hc
  · set s' : TmpfsDirs := { s with entries := s.entries.erase e ++ [⟨ndir, name, e.inode⟩] } with hs'
    rw [setParent_some (s := s') hy] at hcounted ⊢
    set x : DirNode := { y with parent := some ndir } with hx
    have hupdate : (s'.setInode e.inode (some x)).parentOf = update s.parentOf e.inode (some ndir) := by
      funext m
      rw [parentOf_setInode, update_apply]
      rfl
    have hnot := hout hc.1
    have hkind : ∀ m, (s'.setInode e.inode (some x)).isDir m = s.isDir m := by
      intro m
      rw [isDir_setInode]
      split_ifs with hm
      · rw [hm, isDir_some hy]
        rfl
      · rfl
    have halloc : ∀ m, (s.inode m).isSome = true → ((s'.setInode e.inode (some x)).inode m).isSome = true := by
      intro m hm
      rw [inode_setInode]
      split_ifs
      · rfl
      · exact hm
    refine ⟨hcounted, fun f hf hfd => ?_, fun m hm => ?_, fun m p hp => ?_, ⟨?_, h.top.2⟩, ?_, fun d hd' b hb => ?_⟩
    · rw [hupdate]
      rcases List.mem_append.1 hf with hf | hf
      · obtain ⟨hmem, hne⟩ := hother f hf
        rw [update_of_ne hne]
        exact h.named f hmem ((hkind _).symm.trans hfd)
      · obtain rfl := List.mem_singleton.1 hf
        exact update_self ..
    · have hme : m ≠ e.inode := by
        rintro rfl
        rw [hkind, hc.1] at hm
        cases hm
      rw [hupdate, update_of_ne hme]
      exact h.file m ((hkind m).symm.trans hm)
    · rw [hupdate, update_apply] at hp
      have hup : p < s.next ∧ ((s.inode p).isSome = true → s.isDir p = true) := by
        split_ifs at hp
        · cases hp
          exact ⟨h.lt_next hd, fun _ => hdir⟩
        · exact h.above m p hp
      refine ⟨hup.1, fun hsome => ?_⟩
      rw [hkind]
      rw [inode_setInode] at hsome
      split_ifs at hsome with hpe
      · exact hpe ▸ hc.1
      · exact hup.2 hsome
    · have hroot : s.root ≠ e.inode := by
        intro hr
        have hp := h.named e he hc.1
        rw [← hr, h.top.1] at hp
        cases hp
      show (s'.setInode e.inode (some x)).parentOf s.root = none
      rw [hupdate, update_of_ne hroot]
      exact h.top.1
    · rw [hupdate]
      exact h.acyclic.update hnot
    · refine halloc b ?_
      rw [hupdate] at hb
      rcases ReflTransGen.cases_head_iff.1 hb with rfl | hstep
      · exact h.sound d hd' _ .refl
      · have hpath : TransGen (Up (update s.parentOf e.inode (some ndir))) d b := by
          obtain ⟨c, hdc, hcb⟩ := hstep
          exact TransGen.head' hdc hcb
        rcases path_update hpath with hold | ⟨-, hnew⟩
        · exact h.sound d hd' b hold.to_reflTransGen
        · exact hd b (Reaches.of_update hnew hnot)
  · refine ⟨hcounted, fun f hf hfd => ?_, h.file, h.above, h.top, h.acyclic, h.sound⟩
    rcases List.mem_append.1 hf with hf | hf
    · exact h.named f (hother f hf).1 hfd
    · obtain rfl := List.mem_singleton.1 hf
      have hdir : e.dir = ndir := by
        by_contra hne
        exact hc ⟨hfd, hne⟩
      exact hdir ▸ h.named e he hfd

end Tree

def Safe {α : Type} (P : α → Prop) (r : Except TreeError α) : Prop :=
  r ≠ .error .dangling ∧ ∀ a, r = .ok a → P a

namespace Safe

variable {α β : Type} {P : α → Prop} {Q : β → Prop} {r : Except TreeError α}

lemma ok {a : α} (h : P a) : Safe P (.ok a) := ⟨nofun, fun _ hb => Except.ok.inj hb ▸ h⟩

lemma error {err : TreeError} (h : err ≠ .dangling) : Safe P (.error err) :=
  ⟨fun he => h (Except.error.inj he), nofun⟩

lemma bind {f : α → Except TreeError β} (h : Safe P r) (hf : ∀ a, P a → Safe Q (f a)) : Safe Q (r >>= f) := by
  cases r with
  | error e => exact ⟨fun he => h.1 (congrArg Except.error (Except.error.inj he)), nofun⟩
  | ok a => exact hf a (h.2 a rfl)

lemma map {f : α → β} (h : Safe P r) (hf : ∀ a, P a → Q (f a)) : Safe Q (r.map f) := by
  cases r with
  | error e => exact ⟨fun he => h.1 (congrArg Except.error (Except.error.inj he)), nofun⟩
  | ok a => exact .ok (hf a (h.2 a rfl))

end Safe

section Walk

variable (h : Tree s l)
include h

lemma tmpfsLookup_safe (hd : s.Sound dir) (name : String) : Safe s.Sound (s.tmpfsLookup dir name) := by
  obtain ⟨y, hy⟩ := hd.self
  have hparent := parentOf_some hy
  rw [tmpfsLookup, hy]
  dsimp only
  split_ifs
  · cases hp : y.parent with
    | none => exact .ok hd
    | some p =>
      have hs := hd.parent (hparent.trans hp)
      dsimp only
      rw [if_pos (hs p .refl)]
      exact .ok hs
  · cases hf : s.find dir name with
    | none => exact .error nofun
    | some e =>
      obtain ⟨hmem, rfl, -⟩ := find_spec hf
      exact .ok (h.sound_entry hmem hd)

lemma step_safe (hd : s.Sound dir) (name : String) : Safe s.Sound (s.step dir name) := by
  obtain ⟨y, hy⟩ := hd.self
  rw [step, hy]
  dsimp only
  split_ifs
  · exact .error nofun
  · exact .ok hd
  · exact .ok hd
  · exact tmpfsLookup_safe h hd name

lemma walk_safe (path : List String) (hd : s.Sound dir) : Safe s.Sound (s.walk path dir) := by
  induction path generalizing dir with
  | nil => exact .ok hd
  | cons name path ih => exact (step_safe h hd name).bind fun a ha => ih ha

omit h in
lemma climb_safe (k : ℕ) (hp : s.Sound p) :
    Safe (fun b => b = false → ¬ Reaches s.parentOf p x) (s.climb x k (some p)) := by
  induction k generalizing p with
  | zero => exact .error nofun
  | succ k ih =>
    obtain ⟨y, hy⟩ := hp.self
    have hparent := parentOf_some hy
    rw [climb]
    split_ifs with hpx
    · exact .ok nofun
    · rw [hy]
      dsimp only
      cases hq : y.parent with
      | none =>
        rw [climb]
        refine .ok fun _ hr => ?_
        rcases ReflTransGen.cases_head hr with rfl | ⟨c, hc, -⟩
        · exact hpx rfl
        · rw [Up, hparent, hq] at hc
          cases hc
      | some q =>
        have hup := hparent.trans hq
        obtain ⟨hno, hok⟩ := ih (hp.parent hup)
        refine ⟨hno, fun b hb hf hr => ?_⟩
        rcases ReflTransGen.cases_head hr with rfl | ⟨c, hc, hcx⟩
        · exact hpx rfl
        · rw [Up, hup] at hc
          cases hc
          exact hok b hb hf hcx

end Walk

section Remove

variable {l : List ℕ} {f : ℕ}

lemma iput_inode (hne : n ≠ f) : (s.iput f).inode n = s.inode n := by
  rw [iput, inode_setInode, if_neg hne]

lemma iput_parentOf (hp : (s.iput f).parentOf n = some p) : s.parentOf n = some p := by
  rw [iput, parentOf_setInode] at hp
  split_ifs at hp with hn
  · rw [hn, parentOf]
    cases hy : s.inode f with
    | none =>
      rw [hy] at hp
      cases hp
    | some y =>
      rw [hy, Option.bind_some] at hp
      split_ifs at hp
      · cases hp
      · exact hp
  · exact hp

lemma Sound.iput (hd : s.Sound d) (hclear : s.refs f = 1 → ¬ Reaches s.parentOf d f) (hpos : 0 < s.refs f) :
    (s.iput f).Sound d := by
  intro b hb
  have hold : Reaches s.parentOf d b := ReflTransGen.mono (fun _ _ => iput_parentOf) d b hb
  by_cases hbf : b = f
  · subst hbf
    obtain ⟨y, hy⟩ := alloc_of_refs hpos
    have hone : ¬ y.refcount ≤ 1 := fun hle => by
      rw [refs_some hy] at hclear hpos
      exact hclear (by omega) hold
    rw [TmpfsDirs.iput, inode_setInode, if_pos rfl, hy, Option.bind_some, if_neg hone]
    rfl
  · rw [iput_inode hbf]
    exact hd b hold

lemma Tree.remove (h : Tree s l) (he : e ∈ s.entries) (hd : s.Sound e.dir)
    (hclear : s.refs e.inode = 1 → ∀ d ∈ l, d ≠ e.inode → d ≠ s.root → ¬ Reaches s.parentOf d e.inode) :
    Tree ((s.delEntry e).iput e.inode) l :=
  (h.delEntry he (h.sound_entry he hd)).iput h.top.2 hclear

end Remove

section Get

lemma iget_parentOf : (s.iget n).parentOf d = s.parentOf d := by
  rw [iget, parentOf_setInode]
  split_ifs with hd
  · rw [hd, parentOf]
    cases s.inode n <;> rfl
  · rfl

lemma refs_iget (hn : s.inode n = some y) (hpos : 0 < y.refcount) (hone : (s.iget n).refs d = 1) : s.refs d = 1 := by
  rw [iget, refs_setInode, hn] at hone
  split_ifs at hone with hd
  · exact absurd hone (by simp only [Option.map_some, Option.elim_some]; omega)
  · exact hone

end Get

section Rename

variable {l : List ℕ} {odir : ℕ} {oname nname : String}

lemma tmpfsRename_safe (h : Tree s l) (hnd : s.Sound ndir) (hdir : s.isDir ndir = true) :
    Safe (fun s' => s'.root = s.root ∧ ((∀ t, s.find ndir nname = some t → s.find odir oname ≠ some t →
      s.refs t.inode = 1 → ∀ d ∈ l, d ≠ t.inode → d ≠ s.root → ¬ Reaches s.parentOf d t.inode) → Tree s' l))
      (s.tmpfsRename k odir oname ndir nname) := by
  rw [tmpfsRename]
  cases hf : s.find odir oname with
  | none => exact .error nofun
  | some d =>
    obtain ⟨hmem, hdo, -⟩ := find_spec hf
    dsimp only
    by_cases hsame : s.find ndir nname = some d
    · rw [if_pos hsame]
      exact .ok ⟨rfl, fun _ => h⟩
    rw [if_neg hsame]
    have hwalk : Safe (fun b => b = false → s.isDir d.inode = true → ¬ Reaches s.parentOf ndir d.inode)
        (if s.isDir d.inode then s.climb d.inode k (some ndir) else .ok false) := by
      by_cases hdd : s.isDir d.inode = true
      · obtain ⟨hno, hok⟩ := climb_safe (x := d.inode) k hnd
        rw [if_pos hdd]
        exact ⟨hno, fun b hb hf _ => hok b hb hf⟩
      · rw [if_neg hdd]
        exact .ok fun _ hc => absurd hc hdd
    revert hwalk
    generalize (if s.isDir d.inode then s.climb d.inode k (some ndir) else .ok false) = v
    intro hwalk
    cases v with
    | error err => exact .error fun hc => hwalk.1 (congrArg Except.error hc)
    | ok b =>
      cases b with
      | true => exact .error nofun
      | false =>
        have hout := hwalk.2 false rfl rfl
        cases ht : s.find ndir nname with
        | none => exact .ok ⟨move_root .., fun _ => h.move hmem hnd hdir nname hout⟩
        | some t =>
          obtain ⟨htmem, htdir, -⟩ := find_spec ht
          have hne : t ≠ d := fun he => hsame (by rw [ht, he])
          have hnodes : d.inode ≠ t.inode := fun he => hne (h.single_inj htmem hmem he.symm)
          dsimp only
          by_cases hkind : s.isDir t.inode ≠ s.isDir d.inode
          · rw [if_pos hkind]
            refine .error ?_
            split_ifs <;> nofun
          rw [if_neg hkind]
          by_cases hfull : s.isDir t.inode = true ∧ s.children t.inode ≠ []
          · rw [if_pos hfull]
            exact .error nofun
          rw [if_neg hfull]
          refine .ok ⟨move_root .., fun hclear => ?_⟩
          have hlast := hclear t rfl (by rw [Ne, Option.some.injEq]; exact Ne.symm hne)
          have htree := h.remove htmem (htdir ▸ hnd) hlast
          -- the target is not above its own directory
          have hnot : ¬ Reaches s.parentOf ndir t.inode := h.not_above htmem htdir hdir
          have hpos : 0 < s.refs t.inode := by
            obtain ⟨y, hy⟩ := h.alloc_entry htmem
            rw [refs_some hy]
            exact h.positive _ y hy
          have hnd' : ((s.delEntry t).iput t.inode).Sound ndir :=
            Sound.iput (s := s.delEntry t) hnd (fun _ => hnot) hpos
          have hsub : ∀ b, Reaches ((s.delEntry t).iput t.inode).parentOf ndir b → Reaches s.parentOf ndir b :=
            fun b => ReflTransGen.mono (fun _ _ => iput_parentOf (s := s.delEntry t)) ndir b
          have hisDir : ∀ n, n ≠ t.inode → ((s.delEntry t).iput t.inode).isDir n = s.isDir n := by
            intro n hn
            rw [isDir, iput_inode hn]
            rfl
          have hndt : ndir ≠ t.inode := by
            rintro rfl
            exact hnot .refl
          refine htree.move ?_ hnd' ?_ nname fun hd hr => ?_
          · exact (List.mem_erase_of_ne (Ne.symm hne)).2 hmem
          · rw [hisDir _ hndt, hdir]
          · rw [hisDir _ hnodes] at hd
            exact hout hd (hsub _ hr)

end Rename

end TmpfsDirs

end MyOS.Fs
