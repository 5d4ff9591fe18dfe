import MyOS.Fs.InodeRefsInvariant

/-! The counts of the references to inodes, in every run. -/

namespace MyOS.Fs.VfsState

open Library Library.AssocLists Function

variable {s t : VfsState} {n i p r : ℕ} {x : MemInode} {e : TmpfsDirent}

section Mount

lemma Inv.giveRoot (h : s.Inv) (hl : r ∈ s.locals) (hi : ∀ r, (i, r) ∉ s.roots)
    (hr : r ∉ s.roots.map Prod.snd) (hsb : ∀ x, s.inode r = some x → x.sb = i) :
    (s.giveRoot i r).Inv := by
  have hkey : i ∉ s.roots.map Prod.fst := by
    intro hm
    obtain ⟨a, ha, rfl⟩ := List.mem_map.1 hm
    exact hi a.2 ha
  refine ⟨h.counted.of_holders rfl rfl rfl fun _ => holders_giveRoot hl, ⟨?_, h.entered.dirs⟩,
    ⟨?_, ?_, ?_, h.attached.mountedKeys, h.attached.coveredKeys, h.attached.mountsNodup, ?_, ?_,
    ?_⟩⟩
  · intro e he
    obtain hm | hm := h.entered.inTree e he
    · left
      change e.dir ∈ (s.roots ++ [(i, r)]).map Prod.snd
      rw [List.map_append]
      exact List.mem_append_left _ hm
    · exact .inr hm
  · intro a ha y hy
    obtain ha | ha := List.mem_append.1 ha
    · exact h.attached.rootSb a ha y hy
    · rw [List.mem_singleton.1 ha] at hy ⊢
      exact hsb y hy
  · change ((s.roots ++ [(i, r)]).map Prod.fst).Nodup
    rw [List.map_append, List.map_singleton]
    exact h.attached.rootKeys.append (List.nodup_singleton _)
      (List.disjoint_singleton.2 hkey)
  · change ((s.roots ++ [(i, r)]).map Prod.snd).Nodup
    rw [List.map_append, List.map_singleton]
    exact h.attached.rootInodes.append (List.nodup_singleton _)
      (List.disjoint_singleton.2 hr)
  · intro a ha
    obtain ⟨j, hj, hroot⟩ := h.attached.mounted a ha
    exact ⟨j, hj, List.mem_append_left _ hroot⟩
  · intro a ha
    obtain ⟨j, hj, hroot⟩ := h.attached.covered a ha
    exact ⟨j, hj, List.mem_append_left _ hroot⟩
  · intro j q hq
    obtain ⟨r', hroot, hm, hc⟩ := h.attached.paired j q hq
    exact ⟨r', List.mem_append_left _ hroot, hm, hc⟩

lemma Inv.attach (h : s.Inv) (hp : p ∈ s.locals) (hr : (i, r) ∈ s.roots)
    (hm : p ∉ s.mounted.map Prod.fst) (hi : ∀ q, ⟨i, some q⟩ ∉ s.mounts) :
    (((((s.iget r).setMounted p r).iget p).setCovered r p).addMount i p).Inv := by
  have hroot : s.InTree r := .inl (List.mem_map.2 ⟨_, hr, rfl⟩)
  have hcov : r ∉ s.covered.map Prod.fst := by
    intro hc
    obtain ⟨a, ha, rfl⟩ := List.mem_map.1 hc
    obtain ⟨j, hj, hrj⟩ := h.attached.covered a ha
    rw [eq_of_values h.attached.rootInodes hrj hr] at hj
    exact hi _ hj
  have hget := (h.iget (Nat.zero_lt_of_lt (Placed.lt_holders (.inl hroot)))).counted
  have hset : ((s.iget r).setMounted p r).Counted :=
    hget.of_holders rfl rfl rfl fun _ => holders_setMounted List.mem_cons_self
  have hlocal : p ∈ ((s.iget r).setMounted p r).locals := by
    change p ∈ (r :: s.locals).erase r
    rw [List.erase_cons_head]
    exact hp
  obtain ⟨y, hy⟩ := hset.held p (holders_local hlocal)
  have hget' := hset.iget hy
  have hcover : ((((s.iget r).setMounted p r).iget p).setCovered r p).Counted :=
    hget'.of_holders rfl rfl rfl fun _ => holders_setCovered List.mem_cons_self
  have hlocal' : p ∈ ((((s.iget r).setMounted p r).iget p).setCovered r p).locals := by
    change p ∈ (p :: (r :: s.locals).erase r).erase p
    rw [List.erase_cons_head, List.erase_cons_head]
    exact hp
  have hk : Kinds s ((((s.iget r).setMounted p r).iget p).setCovered r p) := by
    have hk₁ : Kinds s ((s.iget r).setMounted p r) := kinds_iget.trans (.of_eq rfl)
    exact (hk₁.trans kinds_iget).trans (.of_eq rfl)
  refine ⟨hcover.of_holders rfl rfl rfl fun _ => holders_addMount hlocal',
    h.entered.of_kinds (hk.trans (.of_eq rfl)) rfl rfl,
    ⟨?_, h.attached.rootKeys, h.attached.rootInodes, ?_, ?_, ?_, ?_, ?_, ?_⟩⟩
  · intro a ha z hz
    obtain ⟨x, hx, hsb, -, -⟩ := hk a.2 z hz
    exact hsb.trans (h.attached.rootSb a ha x hx)
  · change ((s.mounted ++ [(p, r)]).map Prod.fst).Nodup
    rw [List.map_append, List.map_singleton]
    exact h.attached.mountedKeys.append (List.nodup_singleton _)
      (List.disjoint_singleton.2 hm)
  · change ((s.covered ++ [(r, p)]).map Prod.fst).Nodup
    rw [List.map_append, List.map_singleton]
    exact h.attached.coveredKeys.append (List.nodup_singleton _)
      (List.disjoint_singleton.2 hcov)
  · exact h.attached.mountsNodup.append (List.nodup_singleton _)
      (List.disjoint_singleton.2 (hi p))
  · intro a ha
    obtain ha | ha := List.mem_append.1 ha
    · obtain ⟨j, hj, hrj⟩ := h.attached.mounted a ha
      exact ⟨j, List.mem_append_left _ hj, hrj⟩
    · rw [List.mem_singleton.1 ha]
      exact ⟨i, List.mem_append_right _ (List.mem_singleton_self _), hr⟩
  · intro a ha
    obtain ha | ha := List.mem_append.1 ha
    · obtain ⟨j, hj, hrj⟩ := h.attached.covered a ha
      exact ⟨j, List.mem_append_left _ hj, hrj⟩
    · rw [List.mem_singleton.1 ha]
      exact ⟨i, List.mem_append_right _ (List.mem_singleton_self _), hr⟩
  · intro j q hq
    obtain hq | hq := List.mem_append.1 hq
    · obtain ⟨r', hrj, hmj, hcj⟩ := h.attached.paired j q hq
      exact ⟨r', hrj, List.mem_append_left _ hmj, List.mem_append_left _ hcj⟩
    · cases List.mem_singleton.1 hq
      exact ⟨r, hr, List.mem_append_right _ (List.mem_singleton_self _),
        List.mem_append_right _ (List.mem_singleton_self _)⟩

end Mount

section Umount

lemma Attached.pair (h : s.Attached) (hm : ⟨i, some p⟩ ∈ s.mounts) (hr : (i, r) ∈ s.roots) :
    (p, r) ∈ s.mounted ∧ (r, p) ∈ s.covered := by
  obtain ⟨r', hr', hmounted, hcovered⟩ := h.paired i p hm
  rw [eq_of_keys h.rootKeys hr hr']
  exact ⟨hmounted, hcovered⟩

lemma Attached.detach (h : s.Attached) (hm : ⟨i, some p⟩ ∈ s.mounts) (hr : (i, r) ∈ s.roots)
    (hk : Kinds s t) (hmounted : t.mounted = s.mounted.filter fun e => e.1 ≠ p)
    (hcovered : t.covered = s.covered.filter fun e => e.1 ≠ r)
    (hmounts : t.mounts = s.mounts.erase ⟨i, some p⟩) (hroots : t.roots = s.roots) :
    t.Attached := by
  obtain ⟨hpr, hrp⟩ := h.pair hm hr
  refine ⟨?_, ?_, ?_, ?_, ?_, ?_, ?_, ?_, ?_⟩
  · intro a ha y hy
    rw [hroots] at ha
    obtain ⟨x, hx, hsb, -, -⟩ := hk a.2 y hy
    exact hsb.trans (h.rootSb a ha x hx)
  · rw [hroots]
    exact h.rootKeys
  · rw [hroots]
    exact h.rootInodes
  · rw [hmounted]
    exact (List.filter_sublist.map _).nodup h.mountedKeys
  · rw [hcovered]
    exact (List.filter_sublist.map _).nodup h.coveredKeys
  · rw [hmounts]
    exact h.mountsNodup.erase _
  · intro a ha
    rw [hmounted, List.mem_filter, decide_eq_true_eq] at ha
    obtain ⟨j, hj, hrj⟩ := h.mounted a ha.1
    rw [hmounts, hroots]
    refine ⟨j, (List.mem_erase_of_ne ?_).2 hj, hrj⟩
    intro heq
    cases heq
    exact ha.2 rfl
  · intro a ha
    rw [hcovered, List.mem_filter, decide_eq_true_eq] at ha
    obtain ⟨j, hj, hrj⟩ := h.covered a ha.1
    rw [hmounts, hroots]
    refine ⟨j, (List.mem_erase_of_ne ?_).2 hj, hrj⟩
    intro heq
    cases heq
    exact ha.2 (eq_of_keys h.rootKeys hrj hr)
  · intro j q hq
    rw [hmounts, h.mountsNodup.mem_erase_iff] at hq
    obtain ⟨hne, hq⟩ := hq
    obtain ⟨r', hrj, hmj, hcj⟩ := h.paired j q hq
    have hroot : r' ≠ r := by
      rintro rfl
      rw [eq_of_values h.rootInodes hrj hr, eq_of_keys h.coveredKeys hcj hrp] at hne
      exact hne rfl
    have hpoint : q ≠ p := by
      rintro rfl
      exact hroot (eq_of_keys h.mountedKeys hmj hpr)
    rw [hroots, hmounted, hcovered]
    exact ⟨r', hrj, List.mem_filter.2 ⟨hmj, decide_eq_true hpoint⟩,
      List.mem_filter.2 ⟨hcj, decide_eq_true hroot⟩⟩

lemma Inv.umount (h : s.Inv) (hl : r ∈ s.locals) (hm : ⟨i, some p⟩ ∈ s.mounts)
    (hr : (i, r) ∈ s.roots) :
    (((((((s.clearMounted p r).iput r).clearCovered r p).iput p).delMount i p).iput p).iput
      r).Inv := by
  obtain ⟨hpr, hrp⟩ := h.attached.pair hm hr
  have hkept := h.kept
  -- the mount is taken down one pointer after the other, and every inode keeps its place
  have hc₁ : (s.clearMounted p r).Counted := h.counted.of_holders rfl rfl rfl fun _ =>
    holders_clearMounted h.attached.mountedKeys hpr
  have hk₁ : (s.clearMounted p r).Kept :=
    ⟨hkept.entered, fun a ha => hkept.mounted a (List.mem_of_mem_filter ha), hkept.covered⟩
  rw [iput_eq_drop hc₁ hk₁ List.mem_cons_self]
  have hc₂ := hc₁.drop (n := r) List.mem_cons_self
  have hc₃ : (((s.clearMounted p r).drop r).clearCovered r p).Counted :=
    hc₂.of_holders rfl rfl rfl fun _ => holders_clearCovered h.attached.coveredKeys hrp
  have hk₃ : (((s.clearMounted p r).drop r).clearCovered r p).Kept :=
    ⟨hkept.entered, hk₁.mounted, fun a ha => hkept.covered a (List.mem_of_mem_filter ha)⟩
  rw [iput_eq_drop hc₃ hk₃ List.mem_cons_self]
  have hc₄ := hc₃.drop (n := p) List.mem_cons_self
  have hc₅ : ((((s.clearMounted p r).drop r).clearCovered r p).drop p |>.delMount i p).Counted :=
    hc₄.of_holders rfl rfl rfl fun _ => holders_delMount hm
  have hk₅ : ((((s.clearMounted p r).drop r).clearCovered r p).drop p |>.delMount i p).Kept := by
    refine ⟨hkept.entered, ?_, hk₃.covered⟩
    intro a ha
    obtain ⟨ha, hne⟩ := List.mem_filter.1 ha
    obtain ⟨j, hj⟩ := hkept.mounted a ha
    refine ⟨j, (List.mem_erase_of_ne ?_).2 hj⟩
    intro heq
    cases heq
    exact absurd rfl (of_decide_eq_true hne)
  rw [iput_eq_drop hc₅ hk₅ List.mem_cons_self]
  have hc₆ := hc₅.drop (n := p) List.mem_cons_self
  have hk₆ : ((((s.clearMounted p r).drop r).clearCovered r p).drop p |>.delMount i p |>.drop
      p).Kept := ⟨hk₅.entered, hk₅.mounted, hk₅.covered⟩
  have hlocals : r ∈ ((((s.clearMounted p r).drop r).clearCovered r p).drop p |>.delMount i p
      |>.drop p).locals := by
    change r ∈ (p :: (p :: (r :: s.locals).erase r).erase p).erase p
    simpa using hl
  rw [iput_eq_drop hc₆ hk₆ hlocals]
  have hkinds : Kinds s (((((s.clearMounted p r).drop r).clearCovered r p).drop p |>.delMount i p
      |>.drop p).drop r) := by
    have h₁ : Kinds s ((s.clearMounted p r).drop r) := (Kinds.of_eq rfl).trans kinds_drop
    have h₂ : Kinds s (((s.clearMounted p r).drop r).clearCovered r p |>.drop p) :=
      (h₁.trans (.of_eq rfl)).trans kinds_drop
    have h₃ : Kinds s (((s.clearMounted p r).drop r).clearCovered r p |>.drop p |>.delMount i p
        |>.drop p) := (h₂.trans (.of_eq rfl)).trans kinds_drop
    exact h₃.trans kinds_drop
  exact ⟨hc₆.drop hlocals, h.entered.of_kinds hkinds rfl rfl,
    h.attached.detach hm hr hkinds rfl rfl rfl rfl⟩

end Umount

section Steps

lemma Walking.mem {cur : ℕ} {l : List ℕ} {c : VfsCall} (h : s.Walking cur l x c) :
    cur ∈ s.locals := by
  rw [h.locals]
  exact List.mem_cons_self

lemma find_mem {dir : ℕ} {name : String} (h : s.find dir name = some e) :
    e ∈ s.entries ∧ e.dir = dir := by
  have hp := List.find?_some h
  exact ⟨List.mem_of_find?_eq_some h, (of_decide_eq_true hp).1⟩

lemma holders_entry (h : e ∈ s.entries) : 0 < s.holders e.inode :=
  Nat.zero_lt_of_lt (Placed.lt_holders (.inl (.inr ⟨e, h, rfl⟩)))

lemma holders_start {d : ℕ} (h : d = s.rootInode ∨ d ∈ s.cwds) : 0 < s.holders d := by
  obtain rfl | hd := h
  · exact holders_rootInode
  · exact holders_cwd hd

lemma Inv.ext2Iget {c : ℕ} (h : s.Inv) (hg : s.Ext2Iget i t c) :
    t.Inv ∧ t.locals = c :: s.locals ∧ ∀ x, t.inode c = some x → x.ext2 = true := by
  cases hg with
  | cached hx he hi =>
    refine ⟨h.iget (h.counted.positive _ _ hx), rfl, ?_⟩
    intro y hy
    obtain ⟨z, hz, -, hext, -⟩ := kinds_iget _ _ hy
    rw [hx] at hz
    cases hz
    exact hext.trans he
  | loaded hnone =>
    refine ⟨h.newInode rfl, rfl, ?_⟩
    intro y hy
    have hy' : update s.inode s.next _ s.next = some y := hy
    rw [update_self] at hy'
    cases hy'
    rfl

lemma Inv.ext2New {c : ℕ} (h : s.Inv) (hg : s.Ext2New i t c) :
    t.Inv ∧ t.locals = c :: s.locals := by
  obtain ⟨hg⟩ := hg
  obtain ⟨ht, hl, he⟩ := h.ext2Iget hg
  exact ⟨ht.setMode he _, hl⟩

lemma Entered.empty (h : s.Entered) (hx : s.inode n = some x)
    (hd : x.isDir = true → ∀ f ∈ s.entries, f.dir ≠ n) : ∀ f ∈ s.entries, f.dir ≠ n := by
  rintro f hf rfl
  exact hd (h.dirs f hf x hx).2 f hf rfl

lemma Inv.enterNew {cur : ℕ} {name : String} {z : MemInode} (h : s.Inv) (hx : s.inode cur = some x)
    (hk : x.ext2 = false ∧ x.isDir = true) (hd : s.InTree cur) (hz : z.refcount = 1) :
    ((s.newInode z).addEntry ⟨cur, name, s.next⟩).Inv := by
  apply (h.newInode hz).addEntry
  · exact List.mem_cons_self
  · exact hd
  · intro y hy
    rw [h.newInode_inode hd, hx] at hy
    cases hy
    exact hk

lemma Inv.mount {cur : ℕ} {z : MemInode} (h : s.Inv) (hl : cur ∈ s.locals)
    (hm : s.mountedOn cur = none) (hi : ∀ r, (z.sb, r) ∉ s.roots) (hz : z.refcount = 1) :
    (((((((s.newInode z).giveRoot z.sb s.next).iget s.next).setMounted cur s.next).iget
      cur).setCovered s.next cur).addMount z.sb cur).Inv := by
  have hroot : ((s.newInode z).giveRoot z.sb s.next).Inv := by
    apply (h.newInode hz).giveRoot List.mem_cons_self hi
    · intro hm
      exact h.ne_next (.inl hm) rfl
    · intro y hy
      have hy' : update s.inode s.next (some z) s.next = some y := hy
      rw [update_self] at hy'
      cases hy'
      rfl
  apply hroot.attach
  · change cur ∈ (s.next :: s.locals).erase s.next
    rwa [List.erase_cons_head]
  · exact List.mem_append_right _ (List.mem_singleton_self _)
  · exact notMem_of_lookup hm
  · intro q hq
    obtain ⟨r, hr, -⟩ := h.attached.paired z.sb q hq
    exact hi r hr

lemma Inv.replace {ndir : ℕ} {e f : TmpfsDirent}
    (h : s.Inv) (hd : s.InTree ndir) (hx : s.inode ndir = some x)
    (hk : x.ext2 = false ∧ x.isDir = true) (he : e ∈ s.entries) (hf : f ∈ s.entries)
    (hdir : f.dir = ndir) (hne : f ≠ e) (hempty : ∀ g ∈ s.entries, g.dir ≠ f.inode)
    (name : String) :
    ((((s.delEntry f).iput f.inode).delEntry e).addEntry ⟨ndir, name, e.inode⟩).Inv := by
  have hdel := h.delEntry hf hempty
  have hput := hdel.iput (n := f.inode) List.mem_cons_self
  have heq := hdel.iput_eq (n := f.inode) List.mem_cons_self
  rw [heq] at hput ⊢
  apply hput.moveEntry
  · exact (List.mem_erase_of_ne (Ne.symm hne)).2 he
  · obtain hr | ⟨g, hg, hgn⟩ := hd
    · exact .inl hr
    · have hgf : g ≠ f := by
        rintro rfl
        exact hempty g hg (hdir.trans hgn.symm)
      exact .inr ⟨g, (List.mem_erase_of_ne hgf).2 hg, hgn⟩
  · intro z hz
    obtain ⟨w, hw, -, hext, hdir⟩ := kinds_drop _ _ hz
    have hw' : s.inode ndir = some w := hw
    rw [hx] at hw'
    cases hw'
    exact ⟨hext.trans hk.1, (hdir hk.1).trans hk.2⟩

lemma Inv.step {a : RefAction} (h : s.Inv) (hc : s.Careful a) (hs : s.Step a t) : t.Inv := by
  cases hs with
  | fork hcall hd =>
    apply (h.iget (holders_start hd)).giveCwd
    exact List.mem_cons_self
  | exit hcall hd =>
    apply (h.takeCwd hd).iput
    exact List.mem_cons_self
  | fileClose hcall hn =>
    apply (h.takeFile hn).iput
    exact List.mem_cons_self
  | start hcall hd hk =>
    apply (h.iget (holders_start (hd.imp_right And.left))).goto
  | dot hw hd | top hw | noCross hw hd hr hcov | followed hw hm => exact h.goto _
  | cross hw hd hr hcov =>
    apply ((h.iget (holders_covered (mem_of_lookup hcov))).iput _).goto
    exact List.mem_cons_of_mem _ hw.mem
  | @upTmpfs cur l x path k hw hx =>
    have hparent : 0 < s.holders (x.parent.getD cur) := by
      cases hp : x.parent with
      | none => exact holders_local hw.mem
      | some d =>
        obtain ⟨y, hy⟩ := hc x d hw.inode hp
        exact h.counted.positive d y hy
    apply ((h.iget hparent).iput _).goto
    exact List.mem_cons_of_mem _ hw.mem
  | upExt2 hw hx hg | downExt2 hw hx hd hn hg | creatFoundExt2 hw hx hg =>
    obtain ⟨ht, hl, -⟩ := h.ext2Iget hg
    apply (ht.iput _).goto
    rw [hl]
    exact List.mem_cons_of_mem _ hw.mem
  | downTmpfs hw hx hd hn hf | creatFound hw hx hf =>
    apply ((h.iget (holders_entry (find_mem hf).1)).iput _).goto
    exact List.mem_cons_of_mem _ hw.mem
  | follow hw hm =>
    apply ((h.iget (holders_mounted (mem_of_lookup hm))).iput _).goto
    exact List.mem_cons_of_mem _ hw.mem
  | ends hw => exact (h.iput hw.mem).goto _
  | endsParent hw =>
    apply ((h.iput hw.mem).iput _).goto
    simp [hw.locals]
  | @endsRename cur odir x c hw =>
    have hodir : odir ∈ s.locals := by
      rw [hw.locals]
      exact List.mem_cons_of_mem _ (List.mem_singleton_self _)
    apply ((h.iput hodir).iput _).goto
    rw [locals_iput, hw.locals]
    exact mem_erase_pair _ _
  | opened hw => exact (h.giveFile hw.mem).goto _
  | @creatNew cur x name b hw hx hd hf =>
    refine (((h.enterNew hw.inode ⟨hx, hd⟩ hc ?_).iget (holders_entry (e := ⟨cur, name, s.next⟩)
      ?_)).iput ?_).goto _
    · rfl
    · exact List.mem_append_right _ (List.mem_singleton_self _)
    · simp [hw.locals]
  | creatNewExt2 hw hx hg =>
    obtain ⟨ht, hl⟩ := h.ext2New hg
    apply (ht.iput _).goto
    rw [hl]
    exact List.mem_cons_of_mem _ hw.mem
  | @makes cur x name k hw hx hd hk hf =>
    have hz : (madeInode k x.sb cur).refcount = 1 := by
      obtain rfl | rfl := hk <;> rfl
    apply ((h.enterNew hw.inode ⟨hx, hd⟩ hc hz).iput _).goto
    simp [hw.locals]
  | dropsNew hw hk hx | mountDrops hw hd =>
    apply (((h.newInode rfl).iput _).iput _).goto
    all_goals simp [hw.locals]
  | dropsNewExt2 hw hk hx hg =>
    obtain ⟨ht, hl⟩ := h.ext2New hg
    apply ((ht.iput _).iput _).goto
    all_goals simp [hl, hw.locals]
  | looked hw hk hx hf =>
    apply (((h.iget (holders_entry (find_mem hf).1)).iput _).iput _).goto
    all_goals simp [hw.locals]
  | lookedExt2 hw hk hx hg =>
    obtain ⟨ht, hl, -⟩ := h.ext2Iget hg
    apply ((ht.iput _).iput _).goto
    all_goals simp [hl, hw.locals]
  | removes hw hx hf hy hm hk =>
    have he := (find_mem hf).1
    have hempty := h.entered.empty hy (by
      intro hd
      obtain ⟨-, hfile⟩ | ⟨-, -, hempty⟩ := hk
      · rw [hd] at hfile
        cases hfile
      · exact hempty)
    apply (((((h.iget (holders_entry he)).delEntry he hempty).iput _).iput _).iput _).goto
    all_goals simp [hw.locals]
  | removesExt2 hw hx hk hg hg' =>
    obtain ⟨ht, hl, -⟩ := h.ext2Iget hg
    obtain ⟨hu, hl', -⟩ := ht.ext2Iget hg'
    apply (((hu.iput _).iput _).iput _).goto
    all_goals simp [hl, hl', hw.locals]
  | renames hw hd hs =>
    apply (h.iget (holders_start hs)).goto
  | renameMoves hw hx hd ho hsb he hy hf =>
    have hmove := h.moveEntry (find_mem he).1 hc (by
      intro z hz
      rw [hw.inode] at hz
      cases hz
      exact ⟨hx, hd⟩)
    apply ((((hmove _).reparent _ _).iput _).iput _).goto
    all_goals simp [hw.locals, mem_erase_pair]
  | renameReplaces hw hx hd ho hsb he hy hf hne hv hk hempty =>
    have hmove := h.replace hc hw.inode ⟨hx, hd⟩ (find_mem he).1 (find_mem hf).1 (find_mem hf).2 hne
      (h.entered.empty hv hempty)
    apply ((((hmove _).reparent _ _).iput _).iput _).goto
    all_goals simp [hw.locals, mem_erase_pair]
  | ext2Src hw hx hg | ext2Dst hw hg =>
    obtain ⟨ht, -, -⟩ := h.ext2Iget hg
    exact ht.goto _
  | ext2Ancestor hw hg =>
    obtain ⟨ht, hl, -⟩ := h.ext2Iget hg
    apply ht.iput
    rw [hl]
    exact List.mem_cons_self
  | ext2Out hw =>
    apply (((h.iput hw.mem).iput _).iput _).goto
    all_goals simp [hw.locals, mem_erase_pair]
  | ext2OutDst hw =>
    apply ((((h.iput hw.mem).iput _).iput _).iput _).goto
    all_goals simp [hw.locals, mem_erase_pair]
  | chdir hw hd ho =>
    apply (((h.takeCwd ho).iput _).giveCwd _).goto
    all_goals simp [hw.locals]
  | mount hw hd hm hr hi => exact (h.mount hw.mem hm hi rfl).goto _
  | mountFails hw hd => exact hc.elim
  | umount hw hm hr hn => exact (h.umount hw.mem hm hr).goto _

lemma booted_inode (hn : n ≠ 0) : booted.inode n = none := by
  simp [booted, hn]

lemma booted_inv : booted.Inv := by
  have hzero : ∀ n x, booted.inode n = some x → n = 0 ∧ x = ⟨2, 0, false, true, 0, none⟩ := by
    intro n x hx
    by_cases hn : n = 0
    · subst hn
      exact ⟨rfl, (Option.some.inj hx).symm⟩
    · rw [booted_inode hn] at hx
      cases hx
  have hholders : ∀ n, booted.holders n = [0].count n + [0].count n := by
    intro n
    change 0 + 0 + 0 + 0 + [0].count n + 0 + 0 + 0 + [0].count n = _
    omega
  refine ⟨⟨?_, ?_, ?_, ?_, rfl⟩, ⟨?_, ?_⟩, ⟨?_, ?_, ?_, ?_, ?_, ?_, ?_, ?_, ?_⟩⟩
  · intro n x hx
    obtain ⟨rfl, rfl⟩ := hzero n x hx
    rfl
  · intro n x hx
    obtain ⟨rfl, rfl⟩ := hzero n x hx
    decide
  · intro n hn
    rw [hholders] at hn
    have hmem := List.count_pos_iff.1 (show 0 < [0].count n by omega)
    rw [List.mem_singleton.1 hmem]
    exact ⟨_, rfl⟩
  · intro n hn
    change 1 ≤ n at hn
    apply booted_inode
    omega
  · intro e he
    cases he
  · intro e he
    cases he
  · intro a ha x hx
    rw [List.mem_singleton.1 ha] at hx ⊢
    rw [(hzero 0 x hx).2]
  · exact List.nodup_singleton _
  · exact List.nodup_singleton _
  · exact List.nodup_nil
  · exact List.nodup_nil
  · exact List.nodup_singleton _
  · intro a ha
    cases ha
  · intro a ha
    cases ha
  · intro i p hm
    cases List.mem_singleton.1 hm

lemma reachable_inv (h : (system.guarded Careful).Reachable s) : s.Inv := by
  apply h.invariant
  · rintro s rfl
    exact booted_inv
  · exact fun s a t hs hst => hs.step hst.1 hst.2

lemma Inv.remains (h : t.Inv) (hr : (i, r) ∈ t.roots) : t.Remains i := by
  have hroot : t.InTree r := .inl (List.mem_map.2 ⟨_, hr, rfl⟩)
  obtain ⟨x, hx⟩ := h.counted.held r (Nat.zero_lt_of_lt (Placed.lt_holders (.inl hroot)))
  exact ⟨r, x, hx, h.attached.rootSb _ hr x hx⟩

lemma roots_iput : (s.iput n).roots = s.roots := by
  simp only [iput]
  split
  · rfl
  · split_ifs <;> rfl

lemma Step.umount_roots (hs : Step s (.umount i) t) : ∃ r, (i, r) ∈ t.roots := by
  cases hs with
  | @umount cur x i p hw hm hr hn =>
    refine ⟨cur, ?_⟩
    simp only [goto, roots_iput, delMount, clearCovered, clearMounted]
    exact hr

theorem refcounts_right (s : VfsState) (h : (system.guarded Careful).Reachable s) :
    s.RefsRight ∧ ∀ i t, Step s (.umount i) t → t.Remains i := by
  have hinv := reachable_inv h
  refine ⟨hinv.counted.right, ?_⟩
  intro i t hs
  obtain ⟨r, hr⟩ := hs.umount_roots
  have hc : s.Careful (.umount i) := trivial
  exact (hinv.step hc hs).remains hr

end Steps

section Boot

def begins (s : VfsState) (path : List String) (k : VfsOp) : VfsState :=
  (s.iget s.rootInode).goto (.walk path k)

def comes (s : VfsState) (cur n : ℕ) (path : List String) (k : VfsOp) : VfsState :=
  ((s.iget n).iput cur).goto (.walk path k)

variable {cur : ℕ} {l : List ℕ} {path : List String} {name : String} {k : VfsOp} {y : MemInode}

lemma reachable_begins (h : (system.guarded Careful).Reachable s) (hc : s.call = .idle)
    (path : List String) (hk : ∀ o, k ≠ .renameTo o) :
    (system.guarded Careful).Reachable (s.begins path k) :=
  h.step .other ⟨trivial, .start hc (.inl rfl) hk⟩

lemma reachable_comes (h : (system.guarded Careful).Reachable s)
    (hw : s.Walking cur l x (.walk (name :: path) k)) (hx : x.ext2 = false)
    (hd : x.isDir = true) (hn : name ≠ "." ∧ name ≠ "..") (hf : s.find cur name = some e)
    (ht : (s.comes cur e.inode path k).Walking e.inode l y (.walk path k))
    (hm : (s.comes cur e.inode path k).mountedOn e.inode = none) :
    (system.guarded Careful).Reachable (s.comes cur e.inode path k) := by
  have hdown : (system.guarded Careful).Reachable
      (((s.iget e.inode).iput cur).goto (.follow path k)) :=
    h.step .other ⟨trivial, .downTmpfs hw hx hd hn hf⟩
  exact hdown.step .other ⟨trivial, .followed ⟨rfl, ht.locals, ht.inode⟩ hm⟩

lemma reachable_follows {m : ℕ} (h : (system.guarded Careful).Reachable s)
    (hw : s.Walking cur l x (.follow path k)) (hm : s.mountedOn cur = some m) :
    (system.guarded Careful).Reachable (((s.iget m).iput cur).goto (.follow path k)) :=
  h.step .other ⟨trivial, .follow hw hm⟩

section Unmounted

/-- `mkdir("/m")`, `mount("none", "/m", "tmpfs")`, and `umount("/m")` up to the check. -/
def madeM : VfsState :=
  (((((booted.begins ["m"] .mkdir).newInode (madeInode .mkdir 0 0)).addEntry ⟨0, "m", 1⟩).iput
    0).goto .idle)

def mountedM : VfsState :=
  (((((((((madeM.begins ["m"] .mount).comes 0 1 [] .mount).newInode
    ⟨1, 1, false, true, 0, none⟩).giveRoot 1 2).iget 2).setMounted 1 2).iget 1).setCovered 2
    1).addMount 1 1).goto .idle

def umountingM : VfsState :=
  ((((((mountedM.begins ["m"] .umount).iget 1).iput 0).iget 2).iput 1).goto (.walk [] .umount))

def umountedM : VfsState :=
  ((((((((umountingM.clearMounted 1 2).iput 2).clearCovered 2 1).iput 1).delMount 1 1).iput
    1).iput 2).goto .idle)

lemma mountedM_reachable : (system.guarded Careful).Reachable mountedM := by
  have hmade : (system.guarded Careful).Reachable madeM := by
    have hbegins := reachable_begins (.init rfl) rfl ["m"] (k := .mkdir) nofun
    apply hbegins.step (.enter 0)
    refine ⟨.inl (List.mem_singleton_self 0), ?_⟩
    exact .makes (x := ⟨3, 0, false, true, 0, none⟩) ⟨rfl, rfl, rfl⟩ rfl rfl (.inl rfl) rfl
  have hbegins := reachable_begins hmade rfl ["m"] (k := .mount) nofun
  have hcomes := reachable_comes (e := ⟨0, "m", 1⟩) hbegins ⟨rfl, rfl, rfl⟩ rfl rfl (by decide)
    rfl ⟨rfl, rfl, rfl⟩ rfl
  apply hcomes.step .other
  refine ⟨trivial, .mount ⟨rfl, rfl, rfl⟩ rfl rfl (by decide) ?_⟩
  intro r hr
  cases List.mem_singleton.1 hr

lemma umountingM_reachable : (system.guarded Careful).Reachable umountingM := by
  have hbegins := reachable_begins mountedM_reachable rfl ["m"] (k := .umount) nofun
  have hdown : (system.guarded Careful).Reachable
      ((((mountedM.begins ["m"] .umount).iget 1).iput 0).goto (.follow [] .umount)) := by
    apply hbegins.step .other
    refine ⟨trivial, ?_⟩
    exact .downTmpfs (e := ⟨0, "m", 1⟩) ⟨rfl, rfl, rfl⟩ rfl rfl (by decide) rfl
  have hfollow := reachable_follows (m := 2) hdown ⟨rfl, rfl, rfl⟩ rfl
  apply hfollow.step .other
  refine ⟨trivial, ?_⟩
  exact .followed ⟨rfl, rfl, rfl⟩ rfl

lemma umountingM_umount : Step umountingM (.umount 1) umountedM :=
  .umount (x := ⟨3, 1, false, true, 0, none⟩) ⟨rfl, rfl, rfl⟩ (by decide) (by decide) (by decide)

theorem refcounts_right_umountingM :
    umountingM.RefsRight ∧ ∀ i t, Step umountingM (.umount i) t → t.Remains i :=
  refcounts_right umountingM umountingM_reachable

end Unmounted

section Removed

def madeA : VfsState :=
  (((((((booted.iget 0).giveCwd 0).begins ["a"] .mkdir).newInode (madeInode .mkdir 0 0)).addEntry
    ⟨0, "a", 1⟩).iput 0).goto .idle)

def madeB : VfsState :=
  ((((((madeA.begins ["a", "b"] .mkdir).comes 0 1 ["b"] .mkdir).newInode
    (madeInode .mkdir 0 1)).addEntry ⟨1, "b", 2⟩).iput 1).goto .idle)

def insideB : VfsState :=
  (((((((madeB.begins ["a", "b"] .chdir).comes 0 1 ["b"] .chdir).comes 1 2 [] .chdir).takeCwd
    0).iput 0).giveCwd 2).goto .idle)

def removedB : VfsState :=
  ((((((((insideB.begins ["a", "b"] .rmdir).comes 0 1 ["b"] .rmdir).iget 2).delEntry
    ⟨1, "b", 2⟩).iput 2).iput 2).iput 1).goto .idle)

def removedA : VfsState :=
  (((((((removedB.begins ["a"] .rmdir).iget 1).delEntry ⟨0, "a", 1⟩).iput 1).iput 1).iput
    0).goto .idle)

def foundParent : VfsState := ((((removedA.iget 2).goto (.up [] .stat)).iget 1).iput 2).goto
  (.follow [] .stat)

lemma madeB_reachable : (system.guarded Careful).Reachable madeB := by
  have hfork : (system.guarded Careful).Reachable ((booted.iget 0).giveCwd 0) :=
    System.Reachable.step .other (.init rfl) ⟨trivial, .fork rfl (.inl rfl)⟩
  have ha : (system.guarded Careful).Reachable madeA := by
    have hbegins := reachable_begins hfork rfl ["a"] (k := .mkdir) nofun
    apply hbegins.step (.enter 0)
    refine ⟨.inl (List.mem_singleton_self 0), ?_⟩
    exact .makes (x := ⟨4, 0, false, true, 0, none⟩) ⟨rfl, rfl, rfl⟩ rfl rfl (.inl rfl) rfl
  have hbegins := reachable_begins ha rfl ["a", "b"] (k := .mkdir) nofun
  have hcomes := reachable_comes (e := ⟨0, "a", 1⟩) hbegins ⟨rfl, rfl, rfl⟩ rfl rfl (by decide)
    rfl ⟨rfl, rfl, rfl⟩ rfl
  apply hcomes.step (.enter 1)
  refine ⟨.inr ⟨⟨0, "a", 1⟩, List.mem_singleton_self _, rfl⟩, ?_⟩
  exact .makes (x := ⟨2, 0, false, true, 0, some 0⟩) ⟨rfl, rfl, rfl⟩ rfl rfl (.inl rfl) rfl

lemma insideB_reachable : (system.guarded Careful).Reachable insideB := by
  have hbegins := reachable_begins madeB_reachable rfl ["a", "b"] (k := .chdir) nofun
  have ha := reachable_comes (e := ⟨0, "a", 1⟩) hbegins ⟨rfl, rfl, rfl⟩ rfl rfl (by decide)
    rfl ⟨rfl, rfl, rfl⟩ rfl
  have hb := reachable_comes (e := ⟨1, "b", 2⟩) ha ⟨rfl, rfl, rfl⟩ rfl rfl (by decide)
    rfl ⟨rfl, rfl, rfl⟩ rfl
  apply hb.step .other
  refine ⟨trivial, ?_⟩
  exact .chdir ⟨rfl, rfl, rfl⟩ rfl (List.mem_singleton_self 0)

lemma removedA_reachable : (system.guarded Careful).Reachable removedA := by
  have hb : (system.guarded Careful).Reachable removedB := by
    have hbegins := reachable_begins insideB_reachable rfl ["a", "b"] (k := .rmdir) nofun
    have ha := reachable_comes (e := ⟨0, "a", 1⟩) hbegins ⟨rfl, rfl, rfl⟩ rfl rfl (by decide)
      rfl ⟨rfl, rfl, rfl⟩ rfl
    apply ha.step .other
    refine ⟨trivial, ?_⟩
    exact .removes (e := ⟨1, "b", 2⟩) ⟨rfl, rfl, rfl⟩ rfl rfl rfl rfl
      (.inr ⟨rfl, rfl, by decide⟩)
  have hbegins := reachable_begins hb rfl ["a"] (k := .rmdir) nofun
  apply hbegins.step .other
  refine ⟨trivial, ?_⟩
  exact .removes (e := ⟨0, "a", 1⟩) ⟨rfl, rfl, rfl⟩ rfl rfl rfl rfl (.inr ⟨rfl, rfl, by decide⟩)

lemma foundParent_reachable : system.Reachable foundParent := by
  have hbegins : system.Reachable ((removedA.iget 2).goto (.walk [".."] .stat)) :=
    removedA_reachable.of_guarded.step .other
      (.start rfl (.inr ⟨List.mem_singleton_self 2, rfl⟩) nofun)
  have hup : system.Reachable ((removedA.iget 2).goto (.up [] .stat)) :=
    hbegins.step .other (.noCross ⟨rfl, rfl, rfl⟩ rfl (by decide) rfl)
  exact hup.step (.dotdot 2) (.upTmpfs (x := ⟨2, 0, false, true, 0, some 1⟩) ⟨rfl, rfl, rfl⟩ rfl)

end Removed

theorem not_refcounts_right : (¬ ∀ s, system.Reachable s → s.RefsRight) ∧
    ¬ ∀ s i t, system.Reachable s → Step s (.umount i) t → t.NotOpen i → ¬ t.Remains i := by
  refine ⟨?_, ?_⟩
  · intro h
    have hfault : foundParent.fault = true := rfl
    rw [(h foundParent foundParent_reachable).no_fault] at hfault
    cases hfault
  · intro h
    refine h umountingM 1 umountedM umountingM_reachable.of_guarded umountingM_umount ?_
      ⟨2, ⟨1, 1, false, true, 0, none⟩, rfl, rfl⟩
    intro n hn
    cases hn

end Boot

end MyOS.Fs.VfsState
