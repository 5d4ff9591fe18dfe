import MyOS.Fs.TmpfsTree

/-! The parent of a directory is there as long as the directory can be come to, unless a removed
directory is given up below which a process still stands. -/

namespace MyOS.Fs

open Library Forest Relation Function

namespace TreeUsers

open TmpfsDirs

variable {w w' : TreeUsers} {i j n f dir : ℕ} {path : TreePath} {name : String} {a : TreeCall}

def Invariant (w : TreeUsers) : Prop := w.fs.Tree (w.fs.root :: (w.cwds ++ w.files))

def found (w : TreeUsers) (i : ℕ) (path : TreePath) (name : String) : Option TmpfsDirent :=
  match w.withParent i path name with
  | .ok dir => w.fs.find dir name
  | .error _ => none

/-- The inode that a call gives a reference back of: that of the name that is removed or replaced, the
working directory that is left, or the file that is closed. -/
def gives (w : TreeUsers) : TreeCall → Option ℕ
  | .close j => w.files[j]?
  | .chdir i _ => w.cwds[i]?
  | .unlink i path name | .rmdir i path name => (w.found i path name).map TmpfsDirent.inode
  | .rename i src oname dst nname _ =>
    if w.found i src oname = w.found i dst nname then none else (w.found i dst nname).map TmpfsDirent.inode
  | _ => none

/-- A directory that is held when the call is over: an open one, a working directory, or the one that
`chdir` goes to. -/
def Holds (w : TreeUsers) (a : TreeCall) (d : ℕ) : Prop :=
  d ∈ w.cwds ++ w.files ∨ ∃ i path, a = .chdir i path ∧ w.lookup i path = .ok d

/-- If the call gives the last reference of an inode back, no other that is held is below it. -/
def Clear (w : TreeUsers) (a : TreeCall) : Prop :=
  ∀ f, w.gives a = some f → w.fs.refs f = 1 → ∀ d, w.Holds a d → d ≠ f → ¬ Reaches w.fs.parentOf d f

def Careful (w : TreeUsers) (a : TreeCall) : Prop := (∃ w', w.call a = .ok w') → w.Clear a

section Calls

lemma lookup_safe (i : ℕ) (path : TreePath) (h : w.Invariant) : Safe w.fs.Sound (w.lookup i path) := by
  rw [lookup]
  cases hc : w.cwds[i]? with
  | none => exact .error nofun
  | some cwd =>
    refine walk_safe h path.names (h.sound _ ?_)
    split_ifs
    · exact List.mem_cons_self
    · exact List.mem_cons_of_mem _ (List.mem_append_left _ (List.mem_of_getElem? hc))

lemma withParent_safe (h : w.Invariant) :
    Safe (fun d => w.fs.Sound d ∧ w.fs.isDir d = true ∧ w.withParent i path name = .ok d)
      (w.withParent i path name) := by
  suffices hs : Safe (fun d => w.fs.Sound d ∧ w.fs.isDir d = true) (w.withParent i path name) from
    ⟨hs.1, fun d hd => ⟨(hs.2 d hd).1, (hs.2 d hd).2, hd⟩⟩
  refine (lookup_safe i path h).bind fun d hd => ?_
  split_ifs with hname hdir
  · exact .error nofun
  · exact .error nofun
  · exact .ok ⟨hd, by simpa using hdir⟩

abbrev Keeps (w : TreeUsers) (a : TreeCall) (w' : TreeUsers) : Prop := w.Clear a → w'.Invariant

lemma found_ok (h : w.withParent i path name = .ok dir) : w.found i path name = w.fs.find dir name := by
  rw [found, h]

lemma Clear.last (hc : w.Clear a) (hg : w.gives a = some f) (hone : w.fs.refs f = 1) :
    ∀ d ∈ w.fs.root :: (w.cwds ++ w.files), d ≠ f → d ≠ w.fs.root → ¬ Reaches w.fs.parentOf d f := by
  intro d hd hdf hdr
  exact hc f hg hone d (.inl ((List.mem_cons.1 hd).resolve_left hdr)) hdf

lemma openInode_safe (h : w.Invariant) (hn : w.fs.Sound n) {writing file : Bool} :
    Safe (w.Keeps a) (w.openInode n writing file) := by
  rw [openInode]
  split_ifs
  · exact .error nofun
  · refine .ok fun _ => ((h.iget hn).perm ?_ : Tree _ _)
    show (n :: w.fs.root :: (w.cwds ++ w.files)).Perm (w.fs.root :: (w.cwds ++ (w.files ++ [n])))
    rw [← List.append_assoc]
    exact (List.perm_append_singleton n _).symm
  · exact .error nofun

lemma vfsMkdir_safe (h : w.Invariant) {room : Bool} : Safe (w.Keeps a) (w.vfsMkdir i path name room) := by
  refine (withParent_safe h).bind fun dir ⟨hd, hdir, _⟩ => ?_
  cases w.fs.find dir name with
  | some e => exact .error nofun
  | none =>
    cases room with
    | false => exact .error nofun
    | true => exact .ok fun _ => Tree.newEntry (c := 0) (b := true) h hd hdir rfl name

lemma vfsCreat_safe (h : w.Invariant) {excl writing room file : Bool} :
    Safe (w.Keeps a) (w.vfsCreat i path name excl writing room file) := by
  refine (withParent_safe h).bind fun dir ⟨hd, hdir, _⟩ => ?_
  cases hf : w.fs.find dir name with
  | some e =>
    obtain ⟨hmem, rfl, -⟩ := find_spec hf
    cases excl with
    | true => exact .error nofun
    | false => exact openInode_safe h (h.sound_entry hmem hd)
  | none =>
    cases room with
    | false => exact .error nofun
    | true =>
      have hnew := Tree.newEntry (c := 1) (b := false) h hd hdir rfl name
      cases file with
      | true =>
        refine .ok fun _ => (hnew.perm ?_ : Tree _ _)
        show (w.fs.next :: w.fs.root :: (w.cwds ++ w.files)).Perm (w.fs.root :: (w.cwds ++ (w.files ++ [w.fs.next])))
        rw [← List.append_assoc]
        exact (List.perm_append_singleton w.fs.next _).symm
      | false =>
        refine .ok fun _ => (hnew.iput (n := w.fs.next) List.mem_cons_self fun hone => ?_ : Tree _ _)
        have hnode : (w.fs.newEntry dir name ⟨false, none, 2⟩).inode w.fs.next = some ⟨false, none, 2⟩ :=
          update_self ..
        exact absurd ((refs_some hnode).symm.trans hone) (by decide)

lemma vfsUnlink_safe (h : w.Invariant) : Safe (w.Keeps (.unlink i path name)) (w.vfsUnlink i path name) := by
  refine (withParent_safe h).bind fun dir ⟨hd, _, hp⟩ => ?_
  cases hf : w.fs.find dir name with
  | none => exact .error nofun
  | some e =>
    obtain ⟨hmem, rfl, -⟩ := find_spec hf
    dsimp only
    split_ifs
    · exact .error nofun
    · rw [tmpfsUnlink, hf]
      refine .ok fun hc => (h.remove hmem hd (hc.last ?_) : Tree _ _)
      rw [gives, found_ok hp, hf]
      rfl

lemma vfsRmdir_safe (h : w.Invariant) : Safe (w.Keeps (.rmdir i path name)) (w.vfsRmdir i path name) := by
  refine (withParent_safe h).bind fun dir ⟨hd, _, hp⟩ => ?_
  cases hf : w.fs.find dir name with
  | none => exact .error nofun
  | some e =>
    obtain ⟨hmem, rfl, -⟩ := find_spec hf
    dsimp only
    split_ifs
    · exact .error nofun
    · rw [tmpfsRmdir, hf]
      dsimp only
      split_ifs
      · exact .error nofun
      · refine .ok fun hc => (h.remove hmem hd (hc.last ?_) : Tree _ _)
        rw [gives, found_ok hp, hf]
        rfl

lemma vfsRename_safe (h : w.Invariant) {src dst : TreePath} {oname nname : String} {k : ℕ} :
    Safe (w.Keeps (.rename i src oname dst nname k)) (w.vfsRename i src oname dst nname k) := by
  refine (withParent_safe h).bind fun odir ⟨_, _, hpo⟩ => ?_
  refine (withParent_safe h).bind fun ndir ⟨hnd, hdir, hpn⟩ => ?_
  refine (tmpfsRename_safe h hnd hdir).map fun s' ⟨hroot, hs'⟩ hc => ?_
  show Tree s' (s'.root :: (w.cwds ++ w.files))
  rw [hroot]
  refine hs' fun t ht hne => hc.last ?_
  rw [gives, found_ok hpo, found_ok hpn, ht, if_neg hne]
  rfl

lemma chdir_perm {cwd : ℕ} (hi : w.cwds[i]? = some cwd) : (n :: w.fs.root :: (w.cwds ++ w.files)).Perm
    (cwd :: w.fs.root :: (w.cwds.set i n ++ w.files)) := by
  obtain ⟨hlt, hget⟩ := List.getElem?_eq_some_iff.1 hi
  have hsplit : w.cwds = w.cwds.take i ++ cwd :: w.cwds.drop (i + 1) := by
    rw [← hget, ← List.drop_eq_getElem_cons hlt, List.take_append_drop]
  refine List.perm_iff_count.2 fun m => ?_
  have hcount : w.cwds.count m = (w.cwds.take i).count m + (cwd :: w.cwds.drop (i + 1)).count m := by
    rw [← List.count_append, ← hsplit]
  simp only [List.set_eq_take_append_cons_drop, if_pos hlt, List.count_cons, List.count_append] at hcount ⊢
  omega

lemma close_perm (hj : w.files[j]? = some n) :
    (w.fs.root :: (w.cwds ++ w.files)).Perm (n :: w.fs.root :: (w.cwds ++ w.files.eraseIdx j)) := by
  obtain ⟨hlt, hget⟩ := List.getElem?_eq_some_iff.1 hj
  refine List.perm_iff_count.2 fun m => ?_
  have hcount := (List.getElem_cons_eraseIdx_perm hlt).count_eq m
  rw [hget] at hcount
  simp only [List.count_cons, List.count_append] at hcount ⊢
  omega

lemma chdir_safe (h : w.Invariant) : Safe (w.Keeps (.chdir i path)) (w.chdir i path) := by
  have hlook := lookup_safe i path h
  rw [chdir]
  cases hl : w.lookup i path with
  | error err =>
    refine .error ?_
    rintro rfl
    exact hlook.1 hl
  | ok n =>
    have hn := hlook.2 n hl
    show Safe _ (if w.fs.isDir n = false then _ else _)
    split_ifs
    · exact .error nofun
    · cases hi : w.cwds[i]? with
      | none => exact .error nofun
      | some cwd =>
        refine .ok fun hc => ?_
        have htree := (h.iget hn).perm (chdir_perm hi)
        have hsame : ∀ m, (w.fs.iget n).parentOf m = w.fs.parentOf m := fun m => iget_parentOf
        have hstands : ∀ d ∈ w.fs.root :: (w.cwds.set i n ++ w.files), d = w.fs.root ∨ w.Holds (.chdir i path) d := by
          intro d hd
          rcases List.mem_cons.1 hd with rfl | hd
          · exact .inl rfl
          · refine .inr ?_
            rcases List.mem_append.1 hd with hd | hd
            · rcases List.mem_or_eq_of_mem_set hd with hd | rfl
              · exact .inl (List.mem_append_left _ hd)
              · exact .inr ⟨i, path, rfl, hl⟩
            · exact .inl (List.mem_append_right _ hd)
        refine (htree.iput List.mem_cons_self fun hone d hd hdc hdr hr => ?_ : Tree _ _)
        have hrefs : w.fs.refs cwd = 1 := by
          obtain ⟨y, hy⟩ := hn.self
          exact refs_iget hy (h.positive n y hy) hone
        exact hc cwd hi hrefs d ((hstands d hd).resolve_left hdr) hdc (by rwa [funext hsame] at hr)

lemma close_safe (h : w.Invariant) : Safe (w.Keeps (.close j)) (w.close j) := by
  rw [close]
  cases hj : w.files[j]? with
  | none => exact .error nofun
  | some n =>
    refine .ok fun hc => ?_
    have hperm := close_perm hj
    refine ((h.perm hperm).iput List.mem_cons_self fun hone d hd hdn hdr => ?_ : Tree _ _)
    refine hc.last hj hone d ?_ hdn hdr
    exact hperm.mem_iff.2 (List.mem_cons_of_mem _ hd)

lemma call_safe (h : w.Invariant) (a : TreeCall) : Safe (w.Keeps a) (w.call a) := by
  cases a with
  | mkdir i path name room => exact vfsMkdir_safe h
  | opens i path writing file => exact (lookup_safe i path h).bind fun n hn => openInode_safe h hn
  | creat i path name excl writing room file => exact vfsCreat_safe h
  | close j => exact close_safe h
  | chdir i path => exact chdir_safe h
  | unlink i path name => exact vfsUnlink_safe h
  | rmdir i path name => exact vfsRmdir_safe h
  | rename i src oname dst nname k => exact vfsRename_safe h

end Calls

section Runs

lemma init_spec (h : system.init w) : ∃ k,
    (∀ n, w.fs.inode n = if n = w.fs.root then some ⟨true, none, k + 1⟩ else none) ∧
      w.fs.root :: (w.cwds ++ w.files) = List.replicate (k + 1) w.fs.root ∧
      w.fs.entries = [] ∧ w.fs.root < w.fs.next := by
  obtain ⟨k, hcwds, hfiles, hentries, hinode, hnext⟩ := h
  refine ⟨k, fun n => ?_, ?_, hentries, hnext⟩
  · rw [hinode, update_apply]
  · rw [hcwds, hfiles, List.append_nil, List.replicate_succ]

lemma init_counted (h : system.init w) : w.fs.Counted (w.fs.root :: (w.cwds ++ w.files)) := by
  obtain ⟨k, hnode, hlist, hentries, hnext⟩ := init_spec h
  rw [hlist]
  refine ⟨fun n => ?_, fun n y hy => ?_, fun n hn => ?_, ?_⟩
  · rw [refs, hnode, hentries, List.map_nil, List.count_nil, List.count_replicate, Nat.zero_add]
    by_cases hn : n = w.fs.root
    · rw [if_pos hn, if_pos (by simp [hn])]
      rfl
    · rw [if_neg hn, if_neg (by simpa using Ne.symm hn)]
      rfl
  · rw [hnode] at hy
    split_ifs at hy
    cases hy
    exact Nat.succ_pos k
  · rw [hnode, if_neg (by omega)]
  · rw [hentries]
    exact List.nodup_nil

lemma init_invariant (h : system.init w) : w.Invariant := by
  obtain ⟨k, hnode, hlist, hentries, hnext⟩ := init_spec h
  have hparent : ∀ n p, w.fs.parentOf n ≠ some p := by
    intro n p
    rw [parentOf, hnode]
    split_ifs <;> rintro ⟨⟩
  have hnone : ∀ n, w.fs.parentOf n = none := fun n =>
    Option.eq_none_iff_forall_ne_some.2 (hparent n)
  refine ⟨init_counted h, fun e he => ?_, fun n _ => hnone n,
    fun n p hp => absurd hp (hparent n p), ⟨hnone _, List.mem_cons_self⟩, fun n hn => ?_, fun d hd b hb => ?_⟩
  · rw [hentries] at he
    cases he
  · obtain ⟨c, hc, -⟩ := TransGen.head'_iff.1 hn
    exact hparent n c hc
  · rw [hlist] at hd
    obtain rfl := List.eq_of_mem_replicate hd
    rcases ReflTransGen.cases_head hb with rfl | ⟨c, hc, -⟩
    · rw [hnode, if_pos rfl]
      rfl
    · exact absurd hc (hparent _ c)

lemma after_invariant (h : w.Invariant) (hc : w.Careful a) : (w.after a).Invariant := by
  have hsafe := call_safe h a
  rw [after]
  cases hr : w.call a with
  | ok w' => exact hsafe.2 w' hr (hc ⟨w', hr⟩)
  | error e => exact h

lemma guarded_invariant (h : (system.guarded Careful).Reachable w) : w.Invariant :=
  h.invariant (fun _ => init_invariant) fun _ _ _ hi ⟨hc, hs⟩ => hs ▸ after_invariant hi hc

lemma tmpfsReaddir_safe {s : TmpfsDirs} {d : ℕ} (h : s.Sound d) (pos : ℕ) : s.tmpfsReaddir d pos ≠ .error .dangling := by
  obtain ⟨y, hy⟩ := h.self
  have hparent := parentOf_some hy
  rw [tmpfsReaddir, hy]
  dsimp only
  split_ifs
  · nofun
  · cases hp : y.parent with
    | none => nofun
    | some p =>
      dsimp only
      rw [if_pos (h.parent (hparent.trans hp) p .refl)]
      nofun
  · cases (s.children d)[pos - 2]? <;> nofun

theorem careful_sound (h : (system.guarded Careful).Reachable w) :
    (∀ a, w.call a ≠ .error .dangling) ∧
      (∀ d ∈ w.cwds ++ w.files, ∀ pos, w.fs.tmpfsReaddir d pos ≠ .error .dangling) ∧
      ∀ i path d, w.lookup i path = .ok d → ∀ p, Reaches w.fs.parentOf d p → (w.fs.inode p).isSome = true := by
  have hw := guarded_invariant h
  exact ⟨fun a => (call_safe hw a).1, fun d hd => tmpfsReaddir_safe (hw.sound d (List.mem_cons_of_mem _ hd)),
    fun i path d hd => (lookup_safe i path hw).2 d hd⟩

def start : TreeUsers := ⟨⟨update (fun _ => none) 0 (some ⟨true, none, 2⟩), [], 1, 0⟩, [0], []⟩

lemma start_init : system.init start := ⟨1, rfl, rfl, rfl, rfl, Nat.one_pos⟩

lemma careful_of_refs (h : ∀ f, w.gives a = some f → w.fs.refs f ≠ 1) : w.Careful a :=
  fun _ f hf hr => absurd hr (h f hf)

/-- A process makes `a` and `a/b` and goes to `a/b`, removes that and goes up. -/
def leaves : { w : TreeUsers // (system.guarded Careful).Reachable w } :=
  have h₀ : (system.guarded Careful).Reachable start := .init start_init
  have h₁ : (system.guarded Careful).Reachable _ := .step (.mkdir 0 ⟨true, []⟩ "a" true) h₀ ⟨careful_of_refs nofun, rfl⟩
  have h₂ : (system.guarded Careful).Reachable _ := .step (.mkdir 0 ⟨true, ["a"]⟩ "b" true) h₁ ⟨careful_of_refs nofun, rfl⟩
  have h₃ : (system.guarded Careful).Reachable _ := .step (.chdir 0 ⟨true, ["a", "b"]⟩) h₂
    ⟨careful_of_refs fun f hf => by
      cases hf
      decide, rfl⟩
  have h₄ : (system.guarded Careful).Reachable _ := .step (.rmdir 0 ⟨true, ["a"]⟩ "b") h₃
    ⟨careful_of_refs fun f hf => by
      cases hf
      decide, rfl⟩
  have h₅ : (system.guarded Careful).Reachable _ := .step (.chdir 0 ⟨false, [".."]⟩) h₄ ⟨fun _ f hf _ d hd hne => by
      obtain rfl : f = 2 := (Option.some.inj hf).symm
      rcases hd with hd | ⟨i, path, ⟨⟩, hd⟩
      · exact absurd (List.mem_singleton.1 hd) hne
      · obtain rfl : d = 1 := (Except.ok.inj hd).symm
        exact Walked.not_reaches (.up (b := 0) (.up (b := 1) .start (by decide)) (by decide)), rfl⟩
  ⟨_, h₅⟩

theorem careful_sound_leaves : leaves.1.cwds = [1] ∧ leaves.1.fs.entries = [⟨0, "a", 1⟩] ∧ (leaves.1.fs.inode 2).isNone = true ∧
    ∀ a, leaves.1.call a ≠ .error .dangling :=
  ⟨rfl, rfl, rfl, (careful_sound leaves.2).1⟩

theorem parent_dangles : ¬ ∀ w, system.Reachable w → ∀ a, w.call a ≠ .error .dangling := by
  intro hall
  have hafter : ∀ {w : TreeUsers} (a : TreeCall), system.Reachable w → system.Reachable (w.after a) :=
    fun a hw => .step a hw rfl
  have hr := hafter (.rmdir 0 ⟨true, []⟩ "a") (hafter (.rmdir 0 ⟨true, ["a"]⟩ "b")
    (hafter (.chdir 0 ⟨true, ["a", "b"]⟩) (hafter (.mkdir 0 ⟨true, ["a"]⟩ "b" true)
      (hafter (.mkdir 0 ⟨true, []⟩ "a" true) (.init start_init)))))
  exact hall _ hr (.chdir 0 ⟨false, [".."]⟩) rfl

end Runs

end TreeUsers

end MyOS.Fs
