import MyOS.Fs.PathWalkRuns
import MyOS.Fs.RamFs
import MyOS.Fs.TmpfsFileRuns

/-! The tree of names that a tmpfs shows, and what the calls do to it. -/

namespace MyOS.Fs

open Library Words Function

inductive Entry
  | dir (mode : ℕ)
  | file (mode : ℕ) (bytes : List UInt8)
  | device (mode : ℕ)
  deriving DecidableEq

abbrev NameTree := List Name → Option Entry

def NameTree.IsDir (t : NameTree) (p : List Name) : Prop := ∃ mode, t p = some (.dir mode)

def Entry.mode : Entry → ℕ
  | .dir mode => mode
  | .file mode _ => mode
  | .device mode => mode

def RamInode.entry (x : RamInode) : Entry :=
  if x.mode &&& sIfmt = sIfdir then .dir (x.mode &&& permBits)
  else if x.mode &&& sIfmt = sIfreg then .file (x.mode &&& permBits) (x.node.tmpfsRead x.node.size 0)
  else .device x.mode

structure TmpfsNode.Intact (n : TmpfsNode) : Prop where
  ledger : n.Ledger
  zero : ∀ pos, n.size ≤ pos → n.byte pos = 0

namespace TmpfsNode

variable {n n' : TmpfsNode} {buf : List UInt8} {room : ℕ → Bool} {heap : Bool}

lemma intact_empty : TmpfsNode.empty.Intact where
  ledger :=
    { range := fun _ _ hf => nomatch hf
      live_iff := fun _ => ⟨fun hf => (nomatch hf), fun ⟨_, hi⟩ => (nomatch hi)⟩
      once := fun _ _ _ hf => nomatch hf
      fresh := fun _ hf => nomatch hf }
  zero _ _ := rfl

lemma Intact.truncate (h : n.Intact) : ∃ n', n.tmpfsTruncate 0 = some n' ∧ n'.Intact ∧ n'.size = 0 := by
  obtain ⟨n', hn, hledger, hsize, hbyte⟩ := tmpfsTruncate_spec h.ledger (by decide : 0 < 2 ^ 64) h.zero
  refine ⟨n', hn, ⟨hledger, fun pos _ => ?_⟩, hsize⟩
  rw [hbyte, if_neg (by omega), if_neg (Nat.not_lt_zero _)]

lemma Intact.write (h : n.Intact) (heap : Bool) (room : ℕ → Bool) (hlen : buf.length < 2 ^ 64) :
    ∃ r n', n.tmpfsWrite heap room buf 0 = some (r, n') ∧ n'.Intact := by
  obtain ⟨r, n', hn, hw⟩ := tmpfsWrite_wrote heap room h.ledger hlen (by decide : 0 < 2 ^ 64)
  refine ⟨r, n', hn, ?_⟩
  cases hw with
  | refused _ => exact h
  | nothing _ hl hb hz =>
    refine ⟨hl, fun pos hpos => ?_⟩
    rw [hb]
    exact h.zero pos (by omega)
  | stored _ hd _ hl hb hz =>
    refine ⟨hl, fun pos hpos => ?_⟩
    rw [hb, Bytes.store_of_not_mem (by rw [List.length_take]; omega)]
    exact h.zero pos (by omega)

lemma writeLoop_all {off k done d : ℕ} (hroom : ∀ i, room i = true) (hdone : done ≤ buf.length)
    (hk : buf.length ≤ done + k) (h : writeLoop room buf off k done n = some (d, n')) : d = buf.length := by
  induction k generalizing done n with
  | zero =>
    cases h
    omega
  | succ k ih =>
    rw [writeLoop] at h
    dsimp only at h
    split_ifs at h with hlt hcap
    · cases hp : n.pageAt (room ((off + done) / pageSize)) ((off + done) / pageSize) with
      | none =>
        rw [pageAt_eq_none, hroom] at hp
        exact absurd hp.2 (by decide)
      | some w =>
        rw [hp] at h
        have hpage := Nat.mod_lt (off + done) (by decide : 0 < pageSize)
        exact ih (by omega) (by omega) h
    · cases h
      omega

lemma Intact.write_all (h : n.Intact) (hsize : n.size = 0) (hlen : buf.length ≤ 2 ^ 36)
    (hroom : ∀ i, room i = true) :
    ∃ r n', n.tmpfsWrite true room buf 0 = some (r, n') ∧ n'.Intact ∧ n'.tmpfsRead n'.size 0 = buf := by
  have hshort : buf.length < 2 ^ 64 := by omega
  obtain ⟨r, n', hn, hw⟩ := tmpfsWrite_wrote true room h.ledger hshort (by decide : 0 < 2 ^ 64)
  obtain ⟨r₁, n₁, hn₁, hintact⟩ := h.write true room hshort
  cases hn.symm.trans hn₁
  refine ⟨r, n', hn, hintact, ?_⟩
  have hall : (∀ d, r = .ok d → d = buf.length) ∧ ∀ e, r = .error e → buf = [] := by
    rw [tmpfsWrite, if_neg (by omega)] at hn
    split at hn
    · rename_i hcap
      exact absurd (ensureCap_eq_none.1 hcap).2 (by decide)
    · obtain ⟨⟨d', n₂⟩, hloop, he⟩ := Option.map_eq_some_iff.1 hn
      obtain rfl := writeLoop_all hroom (Nat.zero_le _) (by omega) hloop
      cases he
      split_ifs with hz
      · exact ⟨fun d hd => (by cases hd), fun _ _ => List.eq_nil_of_length_eq_zero hz⟩
      · exact ⟨fun d hd => (Except.ok.inj hd).symm, fun e he => by cases he⟩
  rw [tmpfsRead_eq hintact.ledger, Nat.sub_zero, min_self]
  cases hw with
  | refused hs =>
    rw [hsize, hall.2 _ rfl]
    rfl
  | nothing hs hl hb hz =>
    rw [hz, hsize, hall.2 _ rfl]
    rfl
  | stored hs hd hoff hl hb hz =>
    obtain rfl := hall.1 _ rfl
    rw [hz, hsize, Nat.zero_max, Nat.zero_add, hb, List.take_length]
    exact Bytes.load_store_self rfl

end TmpfsNode

namespace RamFs

def resolve (s : RamFs) (p : List Name) : Option ℕ := p.foldlM s.find s.root

def tree (s : RamFs) : NameTree := fun p => ((s.resolve p).bind s.inode).map RamInode.entry

structure Sound (s : RamFs) : Prop where
  root : s.HasType s.root sIfdir
  fresh : ∀ n x, s.inode n = some x → n < s.next
  live : ∀ d a n, s.find d a = some n → (s.inode n).isSome = true
  once : ∀ d d' a a' n, s.find d a = some n → s.find d' a' = some n → d = d' ∧ a = a'
  notRoot : ∀ d a, s.find d a ≠ some s.root
  parent : ∀ d a n x, s.find d a = some n → s.inode n = some x → s.HasType n sIfdir → x.parent = some d
  files : ∀ n x, s.inode n = some x → x.node.Intact

variable {s s' : RamFs} {d n : ℕ} {a : Name} {p q : List Name} {x : RamInode} {r : Room}

section Resolve

@[simp] lemma resolve_nil : s.resolve [] = some s.root := rfl

lemma resolve_concat : s.resolve (p ++ [a]) = (s.resolve p).bind fun d => s.find d a := by
  rw [resolve, List.foldlM_append]
  cases h : p.foldlM s.find s.root with
  | none => simp [resolve, h]
  | some d => simp [resolve, h]

lemma Sound.resolve_inj (h : s.Sound) (hp : s.resolve p = some n) (hq : s.resolve q = some n) : p = q := by
  induction p using List.reverseRecOn generalizing q n with
  | nil =>
    cases hp
    rcases List.eq_nil_or_concat q with rfl | ⟨q, b, rfl⟩
    · rfl
    · rw [List.concat_eq_append, resolve_concat] at hq
      obtain ⟨d, -, hd⟩ := Option.bind_eq_some_iff.1 hq
      exact absurd hd (h.notRoot d b)
  | append_singleton p a ih =>
    rw [resolve_concat] at hp
    obtain ⟨d, hd, ha⟩ := Option.bind_eq_some_iff.1 hp
    rcases List.eq_nil_or_concat q with rfl | ⟨q, b, rfl⟩
    · cases hq
      exact absurd ha (h.notRoot d a)
    · rw [List.concat_eq_append, resolve_concat] at hq
      obtain ⟨d', hd', hb⟩ := Option.bind_eq_some_iff.1 hq
      obtain ⟨rfl, rfl⟩ := h.once d d' a b n ha hb
      rw [ih hd hd', List.concat_eq_append]

lemma Sound.inode_of_resolve (h : s.Sound) (hp : s.resolve p = some n) : ∃ x, s.inode n = some x := by
  rcases List.eq_nil_or_concat p with rfl | ⟨p, a, rfl⟩
  · cases hp
    obtain ⟨x, hx, -⟩ := h.root
    exact ⟨x, hx⟩
  · rw [List.concat_eq_append, resolve_concat] at hp
    obtain ⟨d, -, hd⟩ := Option.bind_eq_some_iff.1 hp
    exact Option.isSome_iff_exists.1 (h.live d a n hd)

lemma tree_of_resolve (hp : s.resolve p = some n) (hx : s.inode n = some x) : s.tree p = some x.entry := by
  rw [tree, hp, Option.bind_some, hx, Option.map_some]

lemma tree_of_none (hp : s.resolve p = none) : s.tree p = none := by
  rw [tree, hp]
  rfl

lemma Sound.tree_eq_none (h : s.Sound) : s.tree p = none ↔ s.resolve p = none := by
  refine ⟨fun ht => ?_, tree_of_none⟩
  by_contra hne
  obtain ⟨n, hn⟩ := Option.ne_none_iff_exists'.1 hne
  obtain ⟨x, hx⟩ := h.inode_of_resolve hn
  rw [tree_of_resolve hn hx] at ht
  cases ht

lemma entry_dir {mode : ℕ} (h : x.entry = .dir mode) : x.mode &&& sIfmt = sIfdir := by
  rw [RamInode.entry] at h
  split_ifs at h with hd
  exact hd

lemma entry_file {mode : ℕ} {bytes : List UInt8} (h : x.entry = .file mode bytes) :
    x.mode &&& sIfmt = sIfreg ∧ x.mode &&& permBits = mode := by
  rw [RamInode.entry] at h
  split_ifs at h with hd hr
  exact ⟨hr, (Entry.file.inj h).1⟩

lemma isDir_iff : s.tree.IsDir p ↔ ∃ n, s.resolve p = some n ∧ s.HasType n sIfdir := by
  constructor
  · rintro ⟨mode, ht⟩
    rw [tree] at ht
    obtain ⟨x, hx, he⟩ := Option.map_eq_some_iff.1 ht
    obtain ⟨n, hn, hx⟩ := Option.bind_eq_some_iff.1 hx
    exact ⟨n, hn, x, hx, entry_dir he⟩
  · rintro ⟨n, hn, x, hx, ht⟩
    exact ⟨x.mode &&& permBits, by rw [tree_of_resolve hn hx, RamInode.entry, if_pos ht]⟩

end Resolve

section NewEntry

lemma newEntry_inode_next : (s.newEntry d a x).inode s.next = some x := update_self ..

lemma newEntry_inode (hn : n ≠ s.next) : (s.newEntry d a x).inode n =
    if n = d then (s.inode d).map fun y => { y with entries := y.entries ++ [(a, s.next)] }
    else s.inode n := by
  show update (update s.inode d _) s.next (some x) n = _
  rw [update_of_ne hn]
  by_cases hd : n = d
  · rw [hd, update_self, if_pos rfl]
  · rw [update_of_ne hd, if_neg hd]

lemma newEntry_old {y : RamInode} (hn : n ≠ s.next) (hy : (s.newEntry d a x).inode n = some y) :
    ∃ z, s.inode n = some z ∧ y.mode = z.mode ∧ y.parent = z.parent ∧ y.node = z.node := by
  rw [newEntry_inode hn] at hy
  split_ifs at hy with hd
  · obtain ⟨z, hz, rfl⟩ := Option.map_eq_some_iff.1 hy
    exact ⟨z, hd ▸ hz, rfl, rfl, rfl⟩
  · exact ⟨y, hy, rfl, rfl, rfl⟩

lemma newEntry_hasType {type : ℕ} (hn : n ≠ s.next) :
    (s.newEntry d a x).HasType n type ↔ s.HasType n type := by
  rw [HasType, HasType, newEntry_inode hn]
  by_cases hd : n = d
  · subst hd
    cases s.inode n <;> simp
  · rw [if_neg hd]

variable (h : s.Sound) (hdir : s.HasType d sIfdir) (hnew : s.find d a = none) (hx : x.entries = [])

include h

lemma Sound.inode_next : s.inode s.next = none := by
  by_contra hne
  obtain ⟨y, hy⟩ := Option.ne_none_iff_exists'.1 hne
  exact (h.fresh _ _ hy).false

lemma Sound.ne_next {type : ℕ} (hn : s.HasType n type) : n ≠ s.next := by
  rintro rfl
  obtain ⟨y, hy, -⟩ := hn
  rw [h.inode_next] at hy
  cases hy

include hdir hnew hx

lemma newEntry_find {e : ℕ} {b : Name} : (s.newEntry d a x).find e b =
    if e = d ∧ b = a then some s.next else s.find e b := by
  by_cases he : e = s.next
  · have hed : e ≠ d := fun hc => h.ne_next hdir (hc.symm.trans he)
    rw [if_neg fun hc => hed hc.1, find, find, he, newEntry_inode_next, h.inode_next, Option.bind_some, hx]
    rfl
  rw [find, newEntry_inode he]
  by_cases hed : e = d
  · subst hed
    obtain ⟨y, hy, -⟩ := hdir
    rw [find, hy, Option.bind_some] at hnew
    rw [if_pos rfl, find, hy, Option.map_some, Option.bind_some, Option.bind_some, List.lookup_append]
    by_cases hb : b = a
    · rw [hb, hnew, if_pos ⟨rfl, rfl⟩]
      simp
    · rw [if_neg fun hc => hb hc.2, List.lookup_cons, beq_eq_false_iff_ne.2 hb]
      simp
  · rw [if_neg hed, if_neg fun hc => hed hc.1, find]

lemma newEntry_resolve (hq : s.resolve q = some d) :
    (s.newEntry d a x).resolve p = if p = q ++ [a] then some s.next else s.resolve p := by
  have hfree : s.resolve (q ++ [a]) = none := by rw [resolve_concat, hq, Option.bind_some, hnew]
  induction p using List.reverseRecOn with
  | nil => rw [if_neg (by simp)]; rfl
  | append_singleton p b ih =>
    rw [resolve_concat, ih]
    by_cases hp : p = q ++ [a]
    · -- the new inode has no entries
      have hne : s.next ≠ d := (h.ne_next hdir).symm
      have hnone : s.find s.next b = none := by rw [find, h.inode_next]; rfl
      rw [if_pos hp, Option.bind_some, newEntry_find h hdir hnew hx, if_neg fun hc => hne hc.1, hnone,
        if_neg (by simp [hp]), resolve_concat, hp, hfree]
      rfl
    · rw [if_neg hp, resolve_concat]
      cases he : s.resolve p with
      | none =>
        have hpq : p ++ [b] ≠ q ++ [a] := by
          intro hc
          rw [(List.append_inj' hc rfl).1, hq] at he
          cases he
        rw [if_neg hpq]
        rfl
      | some e =>
        rw [Option.bind_some, Option.bind_some, newEntry_find h hdir hnew hx]
        refine if_congr ?_ rfl rfl
        constructor
        · rintro ⟨rfl, rfl⟩
          rw [h.resolve_inj he hq]
        · intro hc
          obtain ⟨hpq, hba⟩ := List.append_inj' hc rfl
          rw [hpq, hq] at he
          exact ⟨(Option.some.inj he).symm, List.singleton_inj.1 hba⟩

lemma newEntry_tree (hq : s.resolve q = some d) :
    (s.newEntry d a x).tree = update s.tree (q ++ [a]) (some x.entry) := by
  funext p
  by_cases hp : p = q ++ [a]
  · subst hp
    rw [update_self]
    exact tree_of_resolve ((newEntry_resolve h hdir hnew hx hq).trans (if_pos rfl)) newEntry_inode_next
  · rw [update_of_ne hp, tree, newEntry_resolve h hdir hnew hx hq, if_neg hp, tree]
    cases hn : s.resolve p with
    | none => rfl
    | some n =>
      obtain ⟨y, hy⟩ := h.inode_of_resolve hn
      have hne : n ≠ s.next := fun hc => (h.fresh _ _ hy).ne hc
      rw [Option.bind_some, Option.bind_some, newEntry_inode hne]
      split_ifs with hd
      · subst hd
        rw [hy, Option.map_some, Option.map_some, Option.map_some]
        rfl
      · rfl

lemma Sound.newEntry (hnode : x.node.Intact) (hparent : x.mode &&& sIfmt = sIfdir → x.parent = some d) :
    (s.newEntry d a x).Sound := by
  have hfind := fun {e b} => newEntry_find h hdir hnew hx (e := e) (b := b)
  have hold : ∀ {e b m}, s.find e b = some m → m ≠ s.next := fun hm hc => by
    have hlive := h.live _ _ _ hm
    rw [hc, h.inode_next] at hlive
    cases hlive
  refine ⟨?_, fun n y hy => ?_, fun e b n hn => ?_, fun e e' b b' n hn hn' => ?_, fun e b hn => ?_,
    fun e b n y hn hy ht => ?_, fun n y hy => ?_⟩
  · exact (newEntry_hasType (h.ne_next h.root)).2 h.root
  · show n < s.next + 1
    by_cases hnext : n = s.next
    · omega
    · obtain ⟨z, hz, -⟩ := newEntry_old hnext hy
      exact (h.fresh n z hz).trans (Nat.lt_succ_self _)
  · rw [hfind] at hn
    split_ifs at hn with hc
    · cases hn
      rw [newEntry_inode_next]
      rfl
    · rw [newEntry_inode (hold hn)]
      split_ifs with hd
      · rw [Option.isSome_map]
        exact hd ▸ h.live _ _ _ hn
      · exact h.live _ _ _ hn
  · rw [hfind] at hn hn'
    split_ifs at hn hn' with hc hc'
    · exact ⟨hc.1.trans hc'.1.symm, hc.2.trans hc'.2.symm⟩
    · exact absurd (Option.some.inj hn).symm (hold hn')
    · exact absurd (Option.some.inj hn').symm (hold hn)
    · exact h.once _ _ _ _ _ hn hn'
  · have hroot : (s.newEntry d a x).root = s.root := rfl
    rw [hfind, hroot] at hn
    split_ifs at hn with hc
    · exact h.ne_next h.root (Option.some.inj hn).symm
    · exact h.notRoot _ _ hn
  · rw [hfind] at hn
    split_ifs at hn with hc
    · cases hn
      rw [newEntry_inode_next] at hy
      obtain ⟨z, hz, ht⟩ := ht
      rw [newEntry_inode_next] at hz
      cases hy
      cases hz
      rw [hc.1]
      exact hparent ht
    · obtain ⟨z, hz, -, hp, -⟩ := newEntry_old (hold hn) hy
      rw [hp]
      exact h.parent e b n z hn hz ((newEntry_hasType (hold hn)).1 ht)
  · by_cases hnext : n = s.next
    · rw [hnext, newEntry_inode_next] at hy
      exact Option.some.inj hy ▸ hnode
    · obtain ⟨z, hz, -, -, hnode⟩ := newEntry_old hnext hy
      exact hnode ▸ h.files n z hz

end NewEntry

section SetNode

variable {node : TmpfsNode}

lemma setNode_inode_self : (s.setNode n node).inode n = (s.inode n).map fun x => { x with node } :=
  update_self ..

lemma setNode_inode {m : ℕ} (hm : m ≠ n) : (s.setNode n node).inode m = s.inode m := update_of_ne hm ..

lemma setNode_old {m : ℕ} {y : RamInode} (hy : (s.setNode n node).inode m = some y) :
    ∃ z, s.inode m = some z ∧ y.mode = z.mode ∧ y.parent = z.parent ∧ (y.node = z.node ∨ y.node = node) := by
  by_cases hm : m = n
  · rw [hm] at hy ⊢
    rw [setNode_inode_self] at hy
    obtain ⟨x, hx, rfl⟩ := Option.map_eq_some_iff.1 hy
    exact ⟨x, hx, rfl, rfl, .inr rfl⟩
  · rw [setNode_inode hm] at hy
    exact ⟨y, hy, rfl, rfl, .inl rfl⟩

lemma setNode_find : (s.setNode n node).find = s.find := by
  funext d a
  rw [find, find]
  by_cases hd : d = n
  · rw [hd]
    rw [setNode_inode_self]
    cases s.inode n <;> rfl
  · rw [setNode_inode hd]

lemma setNode_hasType {m type : ℕ} : (s.setNode n node).HasType m type ↔ s.HasType m type := by
  rw [HasType, HasType]
  by_cases hm : m = n
  · rw [hm]
    rw [setNode_inode_self]
    cases s.inode n <;> simp
  · rw [setNode_inode hm]

lemma setNode_resolve : (s.setNode n node).resolve = s.resolve := by
  funext p
  rw [resolve, resolve, setNode_find]
  rfl

lemma Sound.setNode (h : s.Sound) (hnode : node.Intact) : (s.setNode n node).Sound where
  root := setNode_hasType.2 h.root
  fresh m y hy :=
    let ⟨z, hz, _⟩ := setNode_old hy
    h.fresh m z hz
  live d a m hm := by
    rw [setNode_find] at hm
    obtain ⟨z, hz⟩ := Option.isSome_iff_exists.1 (h.live d a m hm)
    by_cases hmn : m = n
    · rw [hmn] at hz ⊢
      rw [setNode_inode_self, hz]
      rfl
    · rw [setNode_inode hmn, hz]
      rfl
  once d d' a a' m hm hm' := by
    rw [setNode_find] at hm hm'
    exact h.once d d' a a' m hm hm'
  notRoot d a := by
    rw [setNode_find]
    exact h.notRoot d a
  parent d a m y hm hy ht := by
    rw [setNode_find] at hm
    obtain ⟨z, hz, -, hp, -⟩ := setNode_old hy
    rw [hp]
    exact h.parent d a m z hm hz (setNode_hasType.1 ht)
  files m y hy := by
    obtain ⟨z, hz, -, -, hn | hn⟩ := setNode_old hy
    · rw [hn]
      exact h.files m z hz
    · rw [hn]
      exact hnode

lemma setNode_tree (h : s.Sound) (hp : s.resolve p = some n) (hx : s.inode n = some x) :
    (s.setNode n node).tree = update s.tree p (some { x with node }.entry) := by
  funext q
  by_cases hq : q = p
  · subst hq
    rw [update_self]
    have hnew : (s.setNode n node).inode n = some { x with node } := by
      rw [setNode_inode_self, hx, Option.map_some]
    exact tree_of_resolve (by rw [setNode_resolve, hp]) hnew
  · rw [update_of_ne hq, tree, tree, setNode_resolve]
    cases hm : s.resolve q with
    | none => rfl
    | some m =>
      have hmn : m ≠ n := fun hc => hq (h.resolve_inj hm (hc ▸ hp))
      rw [Option.bind_some, Option.bind_some, setNode_inode hmn]

end SetNode

end RamFs

def lexStep (p : List Name) (a : Name) : List Name :=
  if a = [dot] then p else if a = dotDot then p.dropLast else p ++ [a]

def place (ws : List Name) : List Name := ws.foldl lexStep []

structure Accepted (t : NameTree) (ws : List Name) (a : Name) : Prop where
  short : ∀ w ∈ ws ++ [a], w.length ≤ nameMax
  plain : a ≠ [dot] ∧ a ≠ dotDot
  dirs : ∀ k ≤ ws.length, t.IsDir (place (ws.take k))

namespace RamFs

variable {s s' : RamFs} {d e n : ℕ} {a : Name} {p q ws : List Name} {x : RamInode} {r : Room}
  {l path : List UInt8}

section Walk

lemma step_resolve (h : s.Sound) (hp : s.resolve p = some d) (hdir : s.HasType d sIfdir)
    (hto : s.resolve (lexStep p a) = some e) : s.step d a = .ok e := by
  rw [step, if_neg (not_not_intro hdir)]
  rw [lexStep] at hto
  split_ifs at hto with hdot hdots
  · rw [if_pos hdot, Option.some.inj (hp.symm.trans hto)]
  · rw [if_neg hdot]
    rcases List.eq_nil_or_concat p with rfl | ⟨p, b, rfl⟩
    · obtain rfl := Option.some.inj hp
      rw [if_pos ⟨hdots, rfl⟩, Option.some.inj (hp.symm.trans hto)]
    · rw [List.concat_eq_append] at hp hto
      rw [List.dropLast_concat] at hto
      rw [resolve_concat, hto, Option.bind_some] at hp
      have hroot : d ≠ s.root := by
        rintro rfl
        exact h.notRoot _ _ hp
      obtain ⟨x, hx⟩ := Option.isSome_iff_exists.1 (h.live _ _ _ hp)
      rw [if_neg fun hc => hroot hc.2, tmpfsLookup, if_pos hdots, hx, Option.bind_some,
        h.parent _ _ _ _ hp hx hdir, Option.getD_some]
  · rw [resolve_concat, hp, Option.bind_some] at hto
    rw [if_neg hdot, if_neg fun hc => hdots hc.1, tmpfsLookup, if_neg hdots, hto]

lemma parentLoop_eq (hn : l.length ≤ n) (hw : words slash l = ws ++ [a])
    (hshort : ∀ w ∈ ws ++ [a], w.length ≤ nameMax) :
    s.parentLoop n l d = (ws.foldlM s.step d).map (·, a) := by
  induction n generalizing l d ws with
  | zero =>
    obtain rfl := List.eq_nil_of_length_eq_zero (Nat.le_zero.1 hn)
    exact absurd hw (by simp [words_nil])
  | succ n ih =>
    rw [parentLoop]
    split
    · rename_i hl
      rw [words_of_empty hl] at hw
      exact absurd hw (by simp)
    · rename_i c r hl
      have hlt := length_rest hl
      rw [words_of_cons hl] at hw
      rw [← hw] at hshort
      obtain ⟨hname, hrest⟩ := List.forall_mem_cons.1 hshort
      dsimp only
      rw [if_neg (not_lt.2 hname)]
      split_ifs with hend
      · rw [words_of_empty hend] at hw
        obtain ⟨rfl, rfl⟩ : ws = [] ∧ (c :: r).takeWhile (· != slash) = a := by
          cases ws with
          | nil => exact ⟨rfl, (List.cons.inj hw).1⟩
          | cons w ws => exact absurd (List.cons.inj hw).2 (by simp)
        rfl
      · cases ws with
        | nil =>
          obtain ⟨-, hnil⟩ := List.cons.inj hw
          obtain ⟨c', r', hc⟩ := List.exists_cons_of_ne_nil hend
          rw [words_of_cons hc] at hnil
          cases hnil
        | cons w ws =>
          obtain ⟨rfl, hws⟩ := List.cons.inj hw
          rw [List.foldlM_cons]
          cases s.step d ((c :: r).takeWhile (· != slash)) with
          | error e => rfl
          | ok d' =>
            rw [hws] at hrest
            exact ih (by omega) hws hrest

lemma walk_resolve (h : s.Sound) (hp : s.resolve p = some d)
    (hdirs : ∀ k ≤ ws.length, s.tree.IsDir ((ws.take k).foldl lexStep p)) :
    ∃ e, ws.foldlM s.step d = .ok e ∧ s.resolve (ws.foldl lexStep p) = some e := by
  induction ws generalizing p d with
  | nil => exact ⟨d, rfl, hp⟩
  | cons w ws ih =>
    obtain ⟨d₀, hd₀, hdir⟩ := isDir_iff.1 (hdirs 0 (Nat.zero_le _))
    cases hp.symm.trans hd₀
    have hnext := hdirs 1 (by simp)
    obtain ⟨d', hd', -⟩ := isDir_iff.1 hnext
    have hstep : s.step d w = .ok d' := step_resolve h hp hdir hd'
    obtain ⟨e, he, hres⟩ := ih hd' fun k hk => hdirs (k + 1) (Nat.succ_le_succ hk)
    refine ⟨e, ?_, hres⟩
    rw [List.foldlM_cons, hstep]
    exact he

lemma lookupParent_ok (h : s.Sound) (hpath : path.length < pathMax) (hw : words slash path = ws ++ [a])
    (hacc : Accepted s.tree ws a) :
    ∃ d, s.lookupParent path = .ok (d, a) ∧ s.resolve (place ws) = some d ∧ s.HasType d sIfdir := by
  obtain ⟨d, hd, hres⟩ := walk_resolve h resolve_nil hacc.dirs
  have hdir := hacc.dirs ws.length le_rfl
  rw [List.take_length, isDir_iff] at hdir
  obtain ⟨d', hd', hdir⟩ := hdir
  cases hres.symm.trans hd'
  refine ⟨d, ?_, hres, hdir⟩
  have hne : path ≠ [] := by
    rintro rfl
    exact absurd hw (by simp [words_nil])
  have ha : a ≠ [] := by
    have hmem : a ∈ words slash path := by rw [hw]; simp
    exact (word_of_mem hmem).1.1
  have hloop : s.parentLoop path.length path s.root = .ok (d, a) := by
    rw [parentLoop_eq le_rfl hw hacc.short, hd]
    rfl
  rw [lookupParent, if_neg hne, if_neg (not_le.2 hpath), hloop]
  dsimp only
  rw [if_neg (by simp [ha, hacc.plain]), if_neg (not_not_intro hdir)]

lemma lookupParent_dir (h : s.lookupParent path = .ok (d, a)) : s.HasType d sIfdir ∧ a ≠ dotDot := by
  rw [lookupParent] at h
  split_ifs at h
  split at h
  · cases h
  · split_ifs at h with hname hdir
    cases h
    exact ⟨hdir, fun hc => hname (.inr (.inr hc))⟩

end Walk

section Calls

variable {mode : ℕ} {buf : List UInt8}

lemma perm_type (mode : ℕ) {type : ℕ} (htype : type &&& sIfmt = type) :
    (type ||| (mode &&& permBits)) &&& sIfmt = type := by
  have hperm : permBits &&& sIfmt = 0 := by decide
  rw [Nat.and_or_distrib_right, Nat.and_assoc, hperm, Nat.and_zero, Nat.or_zero, htype]

lemma perm_mode (mode : ℕ) {type : ℕ} (htype : type &&& permBits = 0) :
    (type ||| (mode &&& permBits)) &&& permBits = mode &&& permBits := by
  rw [Nat.and_or_distrib_right, Nat.and_assoc, Nat.and_self, htype, Nat.zero_or]

lemma lookup_eq_find (hname : a ≠ dotDot) : s.tmpfsLookup d a = s.find d a := by
  rw [tmpfsLookup, if_neg hname]

lemma Sound.mkdir (h : s.Sound) (hs : s.vfsMkdir path mode r = .ok s') : s'.Sound := by
  rw [vfsMkdir] at hs
  split at hs
  · cases hs
  · rename_i hl
    obtain ⟨hdir, hname⟩ := lookupParent_dir hl
    rw [lookup_eq_find hname] at hs
    split at hs
    · cases hs
    · rename_i hnew
      rw [tmpfsMkdir] at hs
      split_ifs at hs
      cases hs
      exact h.newEntry hdir hnew rfl TmpfsNode.intact_empty fun _ => rfl

lemma Sound.mknod (h : s.Sound) (hmode : mode &&& sIfmt ≠ sIfdir) (hs : s.vfsMknod path mode r = .ok s') :
    s'.Sound := by
  rw [vfsMknod] at hs
  split at hs
  · cases hs
  · rename_i hl
    obtain ⟨hdir, hname⟩ := lookupParent_dir hl
    rw [lookup_eq_find hname] at hs
    split at hs
    · cases hs
    · rename_i hnew
      rw [tmpfsMknod, tmpfsCreate] at hs
      split_ifs at hs
      · cases hs
        exact h.newEntry hdir hnew rfl TmpfsNode.intact_empty fun hc => absurd hc hmode
      · cases hs

lemma Sound.lookupOrCreate (h : s.Sound) (hdir : s.HasType d sIfdir) (hname : a ≠ dotDot)
    (hs : s.lookupOrCreate d a mode r = .ok (n, s')) : s'.Sound := by
  rw [RamFs.lookupOrCreate, lookup_eq_find hname] at hs
  split at hs
  · cases hs
    exact h
  · rename_i hnew
    rw [tmpfsCreate] at hs
    split_ifs at hs
    cases hs
    have htype : (sIfreg ||| (mode &&& permBits)) &&& sIfmt ≠ sIfdir := by
      rw [perm_type mode (by decide)]
      decide
    exact h.newEntry hdir hnew rfl TmpfsNode.intact_empty fun hc => absurd hc htype

lemma Sound.truncate (h : s.Sound) (n : ℕ) : ∃ s', s.truncate n = some s' ∧ s'.Sound := by
  rw [RamFs.truncate]
  split
  · exact ⟨s, rfl, h⟩
  · rename_i x hx
    split_ifs
    · obtain ⟨node, hnode, hintact, -⟩ := (h.files n x hx).truncate
      exact ⟨s.setNode n node, by rw [hnode, Option.map_some], h.setNode hintact⟩
    · exact ⟨s, rfl, h⟩

lemma Sound.vfsOpen (h : s.Sound) (path : List UInt8) (mode : ℕ) (r : Room) :
    ∃ o s', s.vfsOpen path mode r = some (o, s') ∧ s'.Sound := by
  rw [RamFs.vfsOpen]
  split
  · exact ⟨_, s, rfl, h⟩
  · rename_i hl
    obtain ⟨hdir, hname⟩ := lookupParent_dir hl
    split
    · exact ⟨_, s, rfl, h⟩
    · rename_i n s₁ hc
      have hs₁ := h.lookupOrCreate hdir hname hc
      by_cases htype : s₁.HasType n sIfdir
      · rw [if_pos htype]
        exact ⟨_, s₁, rfl, hs₁⟩
      · obtain ⟨s₂, hs₂, hsound⟩ := hs₁.truncate n
        rw [if_neg htype, hs₂, Option.map_some]
        exact ⟨_, s₂, rfl, hsound⟩

lemma Sound.fileWrite (h : s.Sound) (n : ℕ) (r : Room) (hbuf : buf.length < 2 ^ 64) :
    ∃ s', s.fileWrite n buf r = some s' ∧ s'.Sound := by
  rw [RamFs.fileWrite]
  split
  · exact ⟨s, rfl, h⟩
  · rename_i x hx
    split_ifs
    · obtain ⟨o, node, hnode, hintact⟩ := (h.files n x hx).write r.heap r.page hbuf
      exact ⟨s.setNode n node, by rw [hnode, Option.map_some], h.setNode hintact⟩
    · exact ⟨s, rfl, h⟩

lemma truncate_fileWrite (h : s.Sound) (hp : s.resolve p = some n) (hx : s.inode n = some x)
    (hreg : x.mode &&& sIfmt = sIfreg) (hroom : r.heap = true ∧ ∀ i, r.page i = true)
    (hbuf : buf.length ≤ 2 ^ 36) :
    ∃ s₁ s₂, s.truncate n = some s₁ ∧ s₁.HasType n sIfreg ∧ s₁.fileWrite n buf r = some s₂ ∧ s₂.Sound ∧
      s₂.tree = update s.tree p (some (.file (x.mode &&& permBits) buf)) := by
  obtain ⟨node₁, hnode₁, hintact₁, hsize⟩ := (h.files n x hx).truncate
  have hs₁ : (s.setNode n node₁).Sound := h.setNode hintact₁
  have hx₁ : (s.setNode n node₁).inode n = some { x with node := node₁ } := by
    rw [setNode_inode_self, hx, Option.map_some]
  obtain ⟨o, node₂, hnode₂, hintact₂, hread⟩ := hintact₁.write_all hsize hbuf hroom.2
  refine ⟨s.setNode n node₁, (s.setNode n node₁).setNode n node₂, ?_, ⟨_, hx₁, hreg⟩, ?_,
    hs₁.setNode hintact₂, ?_⟩
  · rw [truncate, hx]
    dsimp only
    rw [if_pos hreg, hnode₁, Option.map_some]
  · rw [fileWrite, hx₁]
    dsimp only
    rw [if_pos hreg, hroom.1, hnode₂, Option.map_some]
  · have hne : ¬ x.mode &&& sIfmt = sIfdir := by
      rw [hreg]
      decide
    rw [setNode_tree hs₁ (by rw [setNode_resolve, hp]) hx₁, setNode_tree h hp hx, update_idem,
      RamInode.entry]
    dsimp only
    rw [if_neg hne, if_pos hreg, hread]

variable (h : s.Sound) (hpath : path.length < pathMax) (hw : words slash path = ws ++ [a])
  (hacc : Accepted s.tree ws a)

include h hpath hw hacc

variable (mode) in
lemma vfsMkdir_new (hroom : r.node = true) (hnew : s.tree (place ws ++ [a]) = none) :
    ∃ s', s.vfsMkdir path mode r = .ok s' ∧ s'.Sound ∧
      s'.tree = update s.tree (place ws ++ [a]) (some (.dir (mode &&& permBits))) := by
  obtain ⟨d, hl, hres, hdir⟩ := lookupParent_ok h hpath hw hacc
  rw [h.tree_eq_none, resolve_concat, hres, Option.bind_some] at hnew
  let x : RamInode := { mode := sIfdir ||| (mode &&& permBits), parent := some d, node := .empty }
  refine ⟨s.newEntry d a x, ?_, h.newEntry hdir hnew rfl TmpfsNode.intact_empty fun _ => rfl, ?_⟩
  · rw [vfsMkdir, hl]
    dsimp only
    rw [lookup_eq_find hacc.plain.2, hnew]
    exact if_pos hroom
  · rw [newEntry_tree h hdir hnew rfl hres, RamInode.entry, if_pos (perm_type mode (by decide)),
      perm_mode mode (by decide)]

lemma vfsMkdir_old (hold : s.tree (place ws ++ [a]) ≠ none) :
    s.vfsMkdir path mode r = .error .EEXIST := by
  obtain ⟨d, hl, hres, -⟩ := lookupParent_ok h hpath hw hacc
  rw [Ne, h.tree_eq_none, resolve_concat, hres, Option.bind_some] at hold
  obtain ⟨n, hn⟩ := Option.ne_none_iff_exists'.1 hold
  rw [vfsMkdir, hl]
  dsimp only
  rw [lookup_eq_find hacc.plain.2, hn]

variable (mode) in
lemma vfsOpen_write (hnode : r.node = true) (hfile : r.file = true)
    (hroom : r.heap = true ∧ ∀ i, r.page i = true) (hbuf : buf.length ≤ 2 ^ 36)
    (hkind : ∀ e, s.tree (place ws ++ [a]) = some e → ∃ m bytes, e = .file m bytes) :
    ∃ n s₁ s₂, s.vfsOpen path mode r = some (.ok n, s₁) ∧ s₁.fileWrite n buf r = some s₂ ∧ s₂.Sound ∧
      s₂.tree = update s.tree (place ws ++ [a])
        (some (.file ((s.tree (place ws ++ [a])).elim (mode &&& permBits) Entry.mode) buf)) := by
  obtain ⟨d, hl, hres, hdir⟩ := lookupParent_ok h hpath hw hacc
  -- the file is there, or it is made
  have hopen : ∃ n x s₀, s.lookupOrCreate d a mode r = .ok (n, s₀) ∧ s₀.Sound ∧
      s₀.resolve (place ws ++ [a]) = some n ∧ s₀.inode n = some x ∧ x.mode &&& sIfmt = sIfreg ∧
      x.mode &&& permBits = (s.tree (place ws ++ [a])).elim (mode &&& permBits) Entry.mode ∧
      ∀ e, update s₀.tree (place ws ++ [a]) e = update s.tree (place ws ++ [a]) e := by
    have hresolve : s.resolve (place ws ++ [a]) = s.find d a := by
      rw [resolve_concat, hres, Option.bind_some]
    rw [lookupOrCreate, lookup_eq_find hacc.plain.2]
    cases hf : s.find d a with
    | some n =>
      rw [hf] at hresolve
      obtain ⟨x, hx⟩ := h.inode_of_resolve hresolve
      have htree := tree_of_resolve hresolve hx
      obtain ⟨m, bytes, he⟩ := hkind _ htree
      obtain ⟨hreg, hmode⟩ := entry_file he
      refine ⟨n, x, s, rfl, h, hresolve, hx, hreg, ?_, fun _ => rfl⟩
      rw [htree, he, hmode]
      rfl
    | none =>
      let x : RamInode := { mode := sIfreg ||| (mode &&& permBits), node := .empty }
      have hreg : x.mode &&& sIfmt = sIfreg := perm_type mode (by decide)
      have hsound : (s.newEntry d a x).Sound := h.newEntry hdir hf rfl TmpfsNode.intact_empty fun hc =>
        absurd (hreg.symm.trans hc) (by decide)
      have hnew : s.tree (place ws ++ [a]) = none := tree_of_none (hresolve.trans hf)
      refine ⟨s.next, x, s.newEntry d a x, if_pos hnode, hsound, ?_, newEntry_inode_next, hreg, ?_,
        fun e => ?_⟩
      · rw [newEntry_resolve h hdir hf rfl hres, if_pos rfl]
      · rw [hnew]
        exact perm_mode mode (by decide)
      · rw [newEntry_tree h hdir hf rfl hres, update_idem]
  obtain ⟨n, x, s₀, hc, hs₀, hres₀, hx, hreg, hmode, hupdate⟩ := hopen
  obtain ⟨s₁, s₂, ht, htype, hwr, hsound, htree⟩ := truncate_fileWrite hs₀ hres₀ hx hreg hroom hbuf
  refine ⟨n, s₁, s₂, ?_, hwr, hsound, ?_⟩
  · have hdirs : ¬ s₀.HasType n sIfdir := by
      rintro ⟨y, hy, htype⟩
      cases hx.symm.trans hy
      exact absurd (hreg.symm.trans htype) (by decide)
    rw [vfsOpen, hl]
    dsimp only
    rw [hc]
    dsimp only
    rw [if_neg hdirs, ht, Option.map_some, if_neg (by simp [hfile]), if_pos (.inl htype)]
  · rw [htree, hupdate, hmode]

end Calls

section Boot

/-- What the root may be before a module is unpacked: directories and devices were made in it. -/
inductive Booted : RamFs → Prop
  | mount : Booted tmpfsCreateSb
  | mkdir {s s' : RamFs} {path : List UInt8} {mode : ℕ} {r : Room} (h : Booted s)
      (hs : s.vfsMkdir path mode r = .ok s') : Booted s'
  | mknod {s s' : RamFs} {path : List UInt8} {mode : ℕ} {r : Room} (h : Booted s)
      (hmode : mode &&& sIfmt ≠ sIfdir) (hs : s.vfsMknod path mode r = .ok s') : Booted s'

lemma tmpfsCreateSb_inode {x : RamInode} : tmpfsCreateSb.inode n = some x ↔
    n = 0 ∧ x = { mode := sIfdir ||| 0x1ED, node := .empty } := by
  have hinode : tmpfsCreateSb.inode n =
      if n = 0 then some { mode := sIfdir ||| 0x1ED, node := .empty } else none := by
    simp only [tmpfsCreateSb, update_apply]
  rw [hinode]
  split_ifs with hn
  · simp [hn, eq_comm]
  · simp [hn]

lemma tmpfsCreateSb_find : tmpfsCreateSb.find d a = none := by
  rw [find]
  cases hx : tmpfsCreateSb.inode d with
  | none => rfl
  | some x =>
    obtain ⟨-, rfl⟩ := tmpfsCreateSb_inode.1 hx
    rfl

lemma tmpfsCreateSb_sound : tmpfsCreateSb.Sound where
  root := ⟨_, tmpfsCreateSb_inode.2 ⟨rfl, rfl⟩, by decide⟩
  fresh n x hx := by
    obtain ⟨rfl, -⟩ := tmpfsCreateSb_inode.1 hx
    decide
  live d a n hn := by
    rw [tmpfsCreateSb_find] at hn
    cases hn
  once d d' a a' n hn := by
    rw [tmpfsCreateSb_find] at hn
    cases hn
  notRoot d a hn := by
    rw [tmpfsCreateSb_find] at hn
    cases hn
  parent d a n x hn := by
    rw [tmpfsCreateSb_find] at hn
    cases hn
  files n x hx := by
    obtain ⟨-, rfl⟩ := tmpfsCreateSb_inode.1 hx
    exact TmpfsNode.intact_empty

lemma Booted.sound (h : s.Booted) : s.Sound := by
  induction h with
  | mount => exact tmpfsCreateSb_sound
  | mkdir _ hs ih => exact ih.mkdir hs
  | mknod _ hmode hs ih => exact ih.mknod hmode hs

end Boot

end RamFs

end MyOS.Fs
