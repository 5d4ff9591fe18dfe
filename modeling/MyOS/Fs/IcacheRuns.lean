import MyOS.Fs.Icache

/-! One live structure for each inode number, with the contents that were last written, as long as
no copy is inserted that a write has overtaken. -/

namespace MyOS.Fs

open Library

lemma size_store (lo hi : BitVec 32) :
    BitVec.ofNat 32 (lo.toNat ||| hi.toNat <<< 32) = lo ∧
      BitVec.ofNat 32 ((lo.toNat ||| hi.toNat <<< 32) >>> 32) = hi := by
  have hlo := lo.isLt
  rw [Nat.or_comm, ← Nat.shiftLeft_add_eq_or_of_lt hlo, Nat.shiftLeft_eq]
  constructor <;> apply BitVec.eq_of_toNat_eq
  · simp only [BitVec.toNat_ofNat]
    omega
  · have hhi := hi.isLt
    simp only [BitVec.toNat_ofNat, Nat.shiftRight_eq_div_pow]
    omega

lemma store_load (r : Ext2Inode) : r.load.store = r := by
  have h := size_store r.size r.sizeHigh
  simp only [Ext2Inode.load, Inode.store, BitVec.ofNat_toNat, BitVec.setWidth_eq]
  split
  · rw [h.1, h.2]
  · simp

lemma store_store (i : Inode) : ({ i with raw := i.store } : Inode).store = i.store := by
  simp only [Inode.store]
  split <;> rfl

namespace Icache

/-- No structure is inserted whose inode was written after it had been read, and a deleted inode is
written only as long as nobody has loaded it again. -/
def Fresh (s : Icache) : IcacheAction → Prop
  | .insert t => ∀ n, s.pc t = .loaded n → s.find (s.node n).ino = none →
      s.writes (s.node n).ino = (s.node n).seen
  | .write n => (s.node n).phase = .deleted → ∀ m, (s.node m).phase = .live →
      0 < (s.node m).refcount → (s.node m).ino ≠ (s.node n).ino
  | _ => True

structure IcacheSafe (s : Icache) : Prop where
  unique : ∀ n m, (s.node n).phase = .live → (s.node m).phase = .live →
    0 < (s.node n).refcount → 0 < (s.node m).refcount → (s.node n).ino = (s.node m).ino → n = m
  coherent : ∀ n, (s.node n).phase = .live → 0 < (s.node n).refcount →
    (s.node n).synced = s.disk (s.node n).ino ∧
      ((s.node n).dirty = false → (s.node n).inode.raw = s.disk (s.node n).ino ∧
        (s.node n).inode.store = (s.node n).inode.raw)

structure IcacheInv (s : Icache) : Prop where
  nodup : s.list.Nodup
  listed : ∀ n, n ∈ s.list ↔ (s.node n).phase = .live
  loader : ∀ t n, s.pc t = .loaded n → (s.node n).phase = .loading
  once : ∀ t u n, s.pc t = .loaded n → s.pc u = .loaded n → t = u
  unique : ∀ n m, (s.node n).phase = .live → (s.node m).phase = .live →
    0 < (s.node n).refcount → 0 < (s.node m).refcount → (s.node n).ino = (s.node m).ino → n = m
  seen : ∀ n, (s.node n).phase = .loading → (s.node n).seen ≤ s.writes (s.node n).ino ∧
    (s.writes (s.node n).ino = (s.node n).seen → (s.node n).synced = s.disk (s.node n).ino)
  coherent : ∀ n, (s.node n).phase = .live → 0 < (s.node n).refcount →
    (s.node n).synced = s.disk (s.node n).ino
  clean : ∀ n, (s.node n).dirty = false →
    (s.node n).inode.raw = (s.node n).synced ∧ (s.node n).inode.store = (s.node n).inode.raw

section Steps

variable {s t : Icache} {n m k u ino : ℕ} {x : Ext2Node} {pc : IgetPc}

@[simp] lemma setNode_self : (s.setNode n x).node n = x := Function.update_self ..

lemma setNode_ne (h : m ≠ n) : (s.setNode n x).node m = s.node m := Function.update_of_ne h ..

structure SameNode (old new : Ext2Node) : Prop where
  ino : new.ino = old.ino
  phase : new.phase = old.phase
  synced : new.synced = old.synced
  seen : new.seen = old.seen
  refcount : 0 < new.refcount → 0 < old.refcount
  clean : (old.dirty = false → old.inode.raw = old.synced ∧ old.inode.store = old.inode.raw) →
    new.dirty = false → new.inode.raw = new.synced ∧ new.inode.store = new.inode.raw

lemma IcacheInv.setNode (hs : s.IcacheInv) (hx : SameNode (s.node n) x) :
    (s.setNode n x).IcacheInv := by
  have hsame : ∀ m, SameNode (s.node m) ((s.setNode n x).node m) := by
    intro m
    by_cases hm : m = n
    · rw [hm, setNode_self]
      exact hx
    · rw [setNode_ne hm]
      exact ⟨rfl, rfl, rfl, rfl, id, id⟩
  refine ⟨hs.nodup, fun m => ?_, fun t m h => ?_, hs.once, fun m k hm hk hm' hk' h => ?_,
    fun m hm => ?_, fun m hm hm' => ?_, fun m => (hsame m).clean (hs.clean m)⟩
  · rw [(hsame m).phase]
    exact hs.listed m
  · rw [(hsame m).phase]
    exact hs.loader t m h
  · rw [(hsame m).phase] at hm
    rw [(hsame k).phase] at hk
    rw [(hsame m).ino, (hsame k).ino] at h
    exact hs.unique m k hm hk ((hsame m).refcount hm') ((hsame k).refcount hk') h
  · rw [(hsame m).phase] at hm
    rw [(hsame m).seen, (hsame m).ino, (hsame m).synced]
    exact hs.seen m hm
  · rw [(hsame m).phase] at hm
    rw [(hsame m).synced, (hsame m).ino]
    exact hs.coherent m hm ((hsame m).refcount hm')

lemma IcacheInv.addRef (hs : s.IcacheInv) (hn : 0 < (s.node n).refcount) :
    (s.addRef n).IcacheInv :=
  hs.setNode ⟨rfl, rfl, rfl, rfl, fun _ => hn, id⟩

@[simp] lemma setPc_self : (s.setPc u pc).pc u = pc := Function.update_self ..

lemma setPc_ne (h : k ≠ u) : (s.setPc u pc).pc k = s.pc k := Function.update_of_ne h ..

lemma loaded_setPc (hpc : ∀ m, pc ≠ .loaded m) (h : (s.setPc u pc).pc k = .loaded m) :
    k ≠ u ∧ s.pc k = .loaded m := by
  by_cases hk : k = u
  · rw [hk, setPc_self] at h
    exact absurd h (hpc m)
  · exact ⟨hk, by rwa [setPc_ne hk] at h⟩

lemma IcacheInv.setPc (hs : s.IcacheInv) (hpc : ∀ m, pc ≠ .loaded m) : (s.setPc u pc).IcacheInv where
  nodup := hs.nodup
  listed := hs.listed
  loader k m h := hs.loader k m (loaded_setPc hpc h).2
  once k v m hk hv := hs.once k v m (loaded_setPc hpc hk).2 (loaded_setPc hpc hv).2
  unique := hs.unique
  seen := hs.seen
  coherent := hs.coherent
  clean := hs.clean

lemma find_some (h : s.find ino = some n) :
    n ∈ s.list ∧ (s.node n).ino = ino ∧ 0 < (s.node n).refcount := by
  have hp := List.find?_some h
  rw [decide_eq_true_iff] at hp
  exact ⟨List.mem_of_find?_eq_some h, hp⟩

lemma find_none (h : s.find ino = none) (hm : m ∈ s.list) (hr : 0 < (s.node m).refcount) :
    (s.node m).ino ≠ ino := by
  have := List.find?_eq_none.1 h m hm
  rw [decide_eq_true_iff] at this
  exact fun hi => this ⟨hi, hr⟩

lemma IcacheInv.lookup (hs : s.IcacheInv) : (s.lookup u ino).IcacheInv := by
  rw [Icache.lookup]
  split
  · next h => exact hs.addRef (find_some h).2.2
  · exact hs.setPc (by simp)

lemma IcacheInv.update (hs : s.IcacheInv) (hother : ∀ m, m ≠ n → t.node m = s.node m)
    (hdisk : t.disk = s.disk) (hwrites : t.writes = s.writes) (hnodup : t.list.Nodup)
    (hlisted : ∀ m, m ∈ t.list ↔ (t.node m).phase = .live)
    (hloader : ∀ k m, t.pc k = .loaded m → (t.node m).phase = .loading)
    (honce : ∀ k v m, t.pc k = .loaded m → t.pc v = .loaded m → k = v)
    (hlive : (t.node n).phase = .live → 0 < (t.node n).refcount →
      (t.node n).synced = s.disk (t.node n).ino ∧ ∀ m, m ≠ n → (s.node m).phase = .live →
        0 < (s.node m).refcount → (s.node m).ino ≠ (t.node n).ino)
    (hloading : (t.node n).phase = .loading → (t.node n).seen ≤ s.writes (t.node n).ino ∧
      (s.writes (t.node n).ino = (t.node n).seen → (t.node n).synced = s.disk (t.node n).ino))
    (hclean : (t.node n).dirty = false → (t.node n).inode.raw = (t.node n).synced ∧
      (t.node n).inode.store = (t.node n).inode.raw) : t.IcacheInv := by
  refine ⟨hnodup, hlisted, hloader, honce, fun m k hm hk hm' hk' h => ?_, fun m hm => ?_,
    fun m hm hm' => ?_, fun m hm => ?_⟩
  · by_cases hmn : m = n <;> by_cases hkn : k = n
    · rw [hmn, hkn]
    · rw [hmn] at hm hm' h
      rw [hother k hkn] at hk hk' h
      exact absurd h.symm ((hlive hm hm').2 k hkn hk hk')
    · rw [hkn] at hk hk' h
      rw [hother m hmn] at hm hm' h
      exact absurd h ((hlive hk hk').2 m hmn hm hm')
    · rw [hother m hmn] at hm hm' h
      rw [hother k hkn] at hk hk' h
      exact hs.unique m k hm hk hm' hk' h
  · rw [hwrites, hdisk]
    by_cases hmn : m = n
    · rw [hmn] at hm ⊢
      exact hloading hm
    · rw [hother m hmn] at hm ⊢
      exact hs.seen m hm
  · rw [hdisk]
    by_cases hmn : m = n
    · rw [hmn] at hm hm' ⊢
      exact (hlive hm hm').1
    · rw [hother m hmn] at hm hm' ⊢
      exact hs.coherent m hm hm'
  · by_cases hmn : m = n
    · rw [hmn] at hm ⊢
      exact hclean hm
    · rw [hother m hmn] at hm ⊢
      exact hs.clean m hm

lemma IcacheInv.load (hs : s.IcacheInv) (hn : (s.node n).phase = .unused) :
    ((s.setNode n (s.copy ino)).setPc u (.loaded n)).IcacheInv := by
  have hother : ∀ m, m ≠ n → ((s.setNode n (s.copy ino)).setPc u (.loaded n)).node m = s.node m :=
    fun m hm => setNode_ne hm
  have hself : ((s.setNode n (s.copy ino)).setPc u (.loaded n)).node n = s.copy ino := setNode_self
  have hfresh : ∀ k, s.pc k ≠ .loaded n := fun k h => by
    have := hs.loader k n h
    simp [hn] at this
  have hpc : ∀ k m, ((s.setNode n (s.copy ino)).setPc u (.loaded n)).pc k = .loaded m →
      k = u ∧ m = n ∨ k ≠ u ∧ m ≠ n ∧ s.pc k = .loaded m := by
    intro k m h
    by_cases hk : k = u
    · rw [hk, setPc_self] at h
      exact .inl ⟨hk, (IgetPc.loaded.inj h).symm⟩
    · rw [setPc_ne hk] at h
      exact .inr ⟨hk, fun hm => hfresh k (hm ▸ h), h⟩
  refine hs.update hother rfl rfl hs.nodup (fun m => ?_) (fun k m h => ?_) (fun k v m hk hv => ?_)
    (fun h => ?_) (fun _ => ?_) fun _ => ?_
  · by_cases hmn : m = n
    · rw [hmn, hself]
      simp [Icache.setPc, Icache.setNode, hs.listed n, hn, copy]
    · rw [hother m hmn]
      exact hs.listed m
  · rcases hpc k m h with ⟨-, rfl⟩ | ⟨-, hmn, h⟩
    · rw [hself]
      rfl
    · rw [hother m hmn]
      exact hs.loader k m h
  · rcases hpc k m hk with ⟨hk, hm⟩ | ⟨-, hm, hk⟩ <;> rcases hpc v m hv with ⟨hv, hm'⟩ | ⟨-, hm', hv⟩
    · rw [hk, hv]
    · exact absurd hm hm'
    · exact absurd hm' hm
    · exact hs.once k v m hk hv
  · rw [hself] at h
    cases h
  · rw [hself]
    exact ⟨le_rfl, fun _ => rfl⟩
  · rw [hself]
    exact ⟨rfl, store_load _⟩

lemma IcacheInv.forget (hs : s.IcacheInv) (hlist : n ∉ s.list)
    (hpc : ∀ k m, t.pc k = .loaded m → m ≠ n ∧ s.pc k = .loaded m) (htlist : t.list = s.list)
    (hdisk : t.disk = s.disk) (hwrites : t.writes = s.writes)
    (hnode : t.node = Function.update s.node n {}) : t.IcacheInv := by
  have hother : ∀ m, m ≠ n → t.node m = s.node m := fun m hm => by
    rw [hnode, Function.update_of_ne hm]
  have hself : t.node n = {} := by rw [hnode, Function.update_self]
  refine hs.update hother hdisk hwrites (htlist ▸ hs.nodup) (fun m => ?_) (fun k m h => ?_)
    (fun k v m hk hv => ?_) (fun h => ?_) (fun h => ?_) fun _ => ?_
  · rw [htlist]
    by_cases hmn : m = n
    · rw [hmn, hself]
      simpa using hlist
    · rw [hother m hmn]
      exact hs.listed m
  · rw [hother m (hpc k m h).1]
    exact hs.loader k m (hpc k m h).2
  · exact hs.once k v m (hpc k m hk).2 (hpc v m hv).2
  · rw [hself] at h
    cases h
  · rw [hself] at h
    cases h
  · rw [hself]
    exact ⟨rfl, store_load _⟩

lemma IcacheInv.insert (hs : s.IcacheInv) (hp : s.pc u = .loaded n)
    (hfresh : s.find (s.node n).ino = none → s.writes (s.node n).ino = (s.node n).seen) :
    (s.insert u n).IcacheInv := by
  have hn := hs.loader u n hp
  have hlist : n ∉ s.list := by
    rw [hs.listed n, hn]
    simp
  rw [Icache.insert]
  split
  · next m h =>
    obtain ⟨hm, -, hr⟩ := find_some h
    have hmn : m ≠ n := fun h => hlist (h ▸ hm)
    have hdrop : ((s.setNode n {}).setPc u .idle).IcacheInv := by
      refine hs.forget hlist (fun k m h => ?_) rfl rfl rfl rfl
      obtain ⟨hku, hk⟩ := loaded_setPc (by simp) h
      refine ⟨?_, hk⟩
      rintro rfl
      exact hku (hs.once k u m hk hp)
    refine hdrop.addRef (n := m) ?_
    change 0 < ((s.setNode n {}).node m).refcount
    rwa [setNode_ne hmn]
  · next h =>
    have hself : ((s.setNode n { s.node n with phase := .live }).setPc u .idle).node n =
        { s.node n with phase := .live } := setNode_self
    have hother : ∀ m, m ≠ n →
        ((s.setNode n { s.node n with phase := .live }).setPc u .idle).node m = s.node m :=
      fun m hm => setNode_ne hm
    refine hs.update (n := n) hother rfl rfl (List.nodup_cons.2 ⟨hlist, hs.nodup⟩) (fun m => ?_)
      (fun k m hk => ?_) (fun k v m hk hv => ?_) (fun _ _ => ?_) (fun hl => ?_) fun hd => ?_
    · by_cases hmn : m = n
      · simp [hmn, hself]
      · simp [hmn, hother m hmn, hs.listed m]
    · obtain ⟨hku, hk⟩ := loaded_setPc (by simp) hk
      have hmn : m ≠ n := by
        rintro rfl
        exact hku (hs.once k u m hk hp)
      simp only [hother m hmn]
      exact hs.loader k m hk
    · exact hs.once k v m (loaded_setPc (by simp) hk).2 (loaded_setPc (by simp) hv).2
    · simp only [hself]
      refine ⟨(hs.seen n hn).2 (hfresh h), fun m _ hm hr => ?_⟩
      exact find_none h ((hs.listed m).2 hm) hr
    · simp [hself] at hl
    · simp only [hself] at hd ⊢
      exact hs.clean n hd

lemma IcacheInv.del (hs : s.IcacheInv) (hn : (s.node n).phase = .live) :
    ({ s.setNode n { s.node n with phase := .deleted } with list := s.list.erase n } :
      Icache).IcacheInv := by
  refine hs.update (n := n) (fun m hm => setNode_ne hm) rfl rfl (hs.nodup.erase n) (fun m => ?_)
    (fun k m hk => ?_) hs.once (fun hl => ?_) (fun hl => ?_) fun hd => ?_
  · simp only [hs.nodup.mem_erase_iff, hs.listed m]
    by_cases hmn : m = n
    · simp [hmn]
    · simp [hmn, setNode_ne hmn]
  · have hmn : m ≠ n := by
      rintro rfl
      have := hs.loader k m hk
      simp [hn] at this
    simp only [setNode_ne hmn]
    exact hs.loader k m hk
  · simp at hl
  · simp at hl
  · simp only [setNode_self] at hd ⊢
    exact hs.clean n hd

lemma IcacheInv.write (hs : s.IcacheInv) (hw : s.Writable n)
    (hfresh : (s.node n).phase = .deleted → ∀ m, (s.node m).phase = .live →
      0 < (s.node m).refcount → (s.node m).ino ≠ (s.node n).ino) : (s.write n).IcacheInv := by
  have hother : ∀ m, m ≠ n → (s.write n).node m = s.node m := fun m hm => setNode_ne hm
  have hself : (s.write n).node n = { s.node n with
      inode := { (s.node n).inode with raw := (s.node n).inode.store }
      synced := (s.node n).inode.store, dirty := false } := setNode_self
  have hino : ∀ m, ((s.write n).node m).ino = (s.node m).ino ∧
      ((s.write n).node m).phase = (s.node m).phase ∧
      ((s.write n).node m).refcount = (s.node m).refcount := by
    intro m
    by_cases hm : m = n
    · rw [hm, hself]
      exact ⟨rfl, rfl, rfl⟩
    · rw [hother m hm]
      exact ⟨rfl, rfl, rfl⟩
  -- No other structure of this number is live.
  have halone : ∀ m, m ≠ n → (s.node m).phase = .live → 0 < (s.node m).refcount →
      (s.node m).ino ≠ (s.node n).ino := by
    intro m hmn hm hr hi
    rcases hw with ⟨hl, hr'⟩ | ⟨hd, -, -⟩
    · exact hmn (hs.unique m n hm hl hr hr' hi)
    · exact hfresh hd m hm hr hi
  refine ⟨hs.nodup, fun m => ?_, fun k m h => ?_, hs.once, fun m k hm hk hm' hk' h => ?_,
    fun m hm => ?_, fun m hm hm' => ?_, fun m hm => ?_⟩
  · rw [(hino m).2.1]
    exact hs.listed m
  · rw [(hino m).2.1]
    exact hs.loader k m h
  · rw [(hino m).2.1] at hm
    rw [(hino k).2.1] at hk
    rw [(hino m).2.2] at hm'
    rw [(hino k).2.2] at hk'
    rw [(hino m).1, (hino k).1] at h
    exact hs.unique m k hm hk hm' hk' h
  · rw [(hino m).2.1] at hm
    have hmn : m ≠ n := by
      rintro rfl
      rcases hw with ⟨hl, -⟩ | ⟨hd, -⟩
      · simp [hm] at hl
      · simp [hm] at hd
    rw [hother m hmn]
    obtain ⟨hle, heq⟩ := hs.seen m hm
    simp only [Icache.write, Function.update_apply]
    split
    · next hi =>
      rw [hi] at hle
      exact ⟨by omega, fun h => by omega⟩
    · exact ⟨hle, heq⟩
  · rw [(hino m).2.1] at hm
    rw [(hino m).2.2] at hm'
    by_cases hmn : m = n
    · rw [hmn, hself]
      simp [Icache.write]
    · rw [hother m hmn]
      have hne := halone m hmn hm hm'
      simp only [Icache.write, Function.update_of_ne hne]
      exact hs.coherent m hm hm'
  · by_cases hmn : m = n
    · rw [hmn, hself]
      exact ⟨rfl, store_store _⟩
    · rw [hother m hmn] at hm ⊢
      exact hs.clean m hm

lemma IcacheInv.step {a : IcacheAction} (hs : s.IcacheInv) (ha : s.Fresh a) (h : Step s a t) :
    t.IcacheInv := by
  cases h with
  | find => exact hs.lookup
  | load hp hn => exact hs.load hn
  | fail hp => exact hs.setPc (by simp)
  | @insert t n hp => exact hs.insert hp (ha n hp)
  | iget hn hr => exact hs.addRef hr
  | iput hn hr => exact hs.setNode ⟨rfl, rfl, rfl, rfl, fun _ => hr, id⟩
  | del hn hr => exact hs.del hn
  | change hw => exact hs.setNode ⟨rfl, rfl, rfl, rfl, id, fun _ h => by cases h⟩
  | write hw => exact hs.write hw ha
  | @writeFail n hw =>
    refine hs.setNode ⟨rfl, rfl, rfl, rfl, id, fun hclean hd => ?_⟩
    exact ⟨(hclean hd).2.trans (hclean hd).1, store_store _⟩
  | @free n hn =>
    refine hs.forget (n := n) ?_ (fun k m h => ⟨?_, h⟩) rfl rfl rfl rfl
    · rw [hs.listed n, hn]
      simp
    · rintro rfl
      have := hs.loader k m h
      simp [hn] at this

lemma IcacheInv.safe (hs : s.IcacheInv) : s.IcacheSafe where
  unique := hs.unique
  coherent n hn hr := by
    refine ⟨hs.coherent n hn hr, fun hd => ?_⟩
    rw [← hs.coherent n hn hr]
    exact hs.clean n hd

end Steps

theorem reachable_icacheSafe {s : Icache} (h : (system.guarded Fresh).Reachable s) :
    s.IcacheSafe := by
  refine (h.invariant (I := IcacheInv) ?_ fun _ _ _ hs h => hs.step h.1 h.2).safe
  rintro _ ⟨inodesCount, readOnly, disk, rfl⟩
  exact ⟨List.nodup_nil, by simp, by simp, by simp, by simp, by simp, by simp,
    fun _ _ => ⟨rfl, store_load _⟩⟩

lemma reachable_step {s t : Icache} {c : Icache → IcacheAction → Prop} {a : IcacheAction}
    (h : (system.guarded c).Reachable s) (hs : Step s a t) (hc : c s a) :
    (system.guarded c).Reachable t := .step a h ⟨hc, hs⟩

def oneLoaded : Icache :=
  let s : Icache := { inodesCount := 2, readOnly := false, disk := fun _ => {} }
  let s := (s.setPc 1 (.missed 2))
  ((s.setNode 1 (s.copy 2)).setPc 1 (.loaded 1)).insert 1 1

theorem reachable_icacheSafe_oneLoaded :
    (oneLoaded.node 1).phase = .live ∧ oneLoaded.IcacheSafe := by
  have h₀ : (system.guarded Fresh).Reachable
      { inodesCount := 2, readOnly := false, disk := fun _ => {} } := .init ⟨_, _, _, rfl⟩
  have h₁ := reachable_step (a := .find 1 2) h₀ (.find rfl (by decide) (by decide)) trivial
  have h₂ := reachable_step (a := .load 1 1) h₁ (.load rfl rfl) trivial
  have h₃ := reachable_step h₂ (.insert (t := 1) (n := 1) rfl) fun n hn _ => by
    cases hn
    rfl
  exact ⟨rfl, reachable_icacheSafe (s := oneLoaded) h₃⟩

theorem not_icacheSafe_overtaken : ¬ ∀ s, system.Reachable s → s.IcacheSafe := by
  intro hsafe
  have h₀ : (system.guarded fun _ _ => True).Reachable
      { inodesCount := 2, readOnly := false, disk := fun _ => {} } := .init ⟨_, _, _, rfl⟩
  have h₁ := reachable_step (a := .find 0 2) h₀ (.find rfl (by decide) (by decide)) trivial
  have h₂ := reachable_step (a := .load 0 0) h₁ (.load rfl rfl) trivial
  have h₃ := reachable_step (a := .find 1 2) h₂ (.find rfl (by decide) (by decide)) trivial
  have h₄ := reachable_step (a := .load 1 1) h₃ (.load rfl rfl) trivial
  have h₅ := reachable_step h₄ (.insert (t := 1) (n := 1) rfl) trivial
  have h₆ := reachable_step h₅ (.change (n := 1) (i := { (Ext2Inode.load {}) with nlink := 1 })
    (.inl ⟨rfl, by decide⟩)) trivial
  have h₇ := reachable_step h₆ (.write (n := 1) (.inl ⟨rfl, by decide⟩)) trivial
  have h₈ := reachable_step h₇ (.iput (n := 1) rfl (by decide)) trivial
  have h₉ := reachable_step h₈ (.del (n := 1) rfl rfl) trivial
  have h := reachable_step h₉ (.insert (t := 0) (n := 0) rfl) trivial
  have hcoh := (((hsafe _ h.of_guarded).coherent 0 rfl (by decide)).2 rfl).1
  revert hcoh
  decide

end Icache

end MyOS.Fs
