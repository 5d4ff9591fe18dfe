import MyOS.Library.System

/-! Mounting and unmounting, with the references that mounts, open files and working directories
hold on inodes. -/

namespace MyOS.Fs

open Library

structure SuperBlock where
  ext2 : Bool
  bdev : Option ℕ
  readOnly : Bool
  root : ℕ
  deriving DecidableEq

structure Mount where
  sb : ℕ
  mountpoint : Option ℕ
  deriving DecidableEq

structure VfsInode where
  sb : ℕ := 0
  isDir : Bool := false
  refcount : ℕ := 0
  mounted : Option ℕ := none
  covered : Option ℕ := none
  deriving DecidableEq

/-- `users` are the references of open files and of working directories, `entries` those of the
names in tmpfs directories. -/
structure Vfs where
  sb : ℕ → Option SuperBlock
  inode : ℕ → VfsInode
  mounts : List Mount
  users : List ℕ := []
  entries : List ℕ := []
  rootInode : ℕ

inductive VfsAction
  | open (n : ℕ)
  | close (n : ℕ)
  | look (n : ℕ)
  | enter (n : ℕ)
  | leave (n : ℕ)
  | mount (n i : ℕ) (b : SuperBlock)
  | umount (n : ℕ)

namespace Vfs

def setInode (s : Vfs) (n : ℕ) (x : VfsInode) : Vfs :=
  { s with inode := Function.update s.inode n x }

def iget (s : Vfs) (n : ℕ) : Vfs :=
  s.setInode n { s.inode n with refcount := (s.inode n).refcount + 1 }

def iput (s : Vfs) (n : ℕ) : Vfs :=
  s.setInode n { s.inode n with refcount := (s.inode n).refcount - 1 }

def rootOf (s : Vfs) (m : Mount) : Option ℕ := (s.sb m.sb).map SuperBlock.root

def Mounted (s : Vfs) (i : ℕ) : Prop := ∃ m ∈ s.mounts, m.sb = i

def Used (s : Vfs) (i : ℕ) : Prop := ∃ n ∈ s.users, (s.inode n).sb = i

def Covers (s : Vfs) (i : ℕ) : Prop :=
  ∃ m ∈ s.mounts, ∃ p, m.mountpoint = some p ∧ (s.inode p).sb = i

/-- A path comes to the file system from the root, from a working directory, or through `..` from
the root of a file system that is mounted on it. -/
def Live (s : Vfs) (i : ℕ) : Prop := s.Mounted i ∨ s.Used i ∨ s.Covers i

inductive Lookup (s : Vfs) : ℕ → Vfs → Prop
  | cached {n} (hr : 0 < (s.inode n).refcount) (hl : s.Live (s.inode n).sb) : Lookup s n (s.iget n)
  | loaded {n i d} (hr : (s.inode n).refcount = 0) (hl : s.Live i) :
      Lookup s n (s.setInode n { sb := i, isDir := d, refcount := 1 })

/-- `vfs_mount` behind the lookup of the target; `i` is the new instance that `fs->mount` makes,
or there is none. -/
def vfsMount (s : Vfs) (mp i : ℕ) (b : Option SuperBlock) : Vfs :=
  if !(s.inode mp).isDir then s.iput mp
  else if (s.inode mp).mounted.isSome ∨ mp = s.rootInode then s.iput mp
  else
    match b with
    | none => s.iput mp
    | some b =>
      let s := { s with sb := Function.update s.sb i (some b) }
      let s := s.setInode b.root { sb := i, isDir := true, refcount := 2, covered := some mp }
      let s := s.setInode mp
        { s.inode mp with refcount := (s.inode mp).refcount + 1, mounted := some b.root }
      { s with mounts := s.mounts ++ [⟨i, some mp⟩] }

def findMount (s : Vfs) (n : ℕ) : Option (Mount × ℕ) :=
  s.mounts.foldl (fun found m =>
    match m.mountpoint with
    | some p => if s.rootOf m = some n then some (m, p) else found
    | none => found) none

def vfsUmount (s : Vfs) (n : ℕ) : Vfs :=
  match s.findMount n with
  | none => s.iput n
  | some (m, p) =>
    if 3 < (s.inode n).refcount then s.iput n
    else
      let s := s.setInode p { s.inode p with mounted := none }
      let s := s.iput n
      let s := s.setInode n { s.inode n with covered := none }
      let s := s.iput p
      let s := s.iput p
      let s := { s with mounts := s.mounts.erase m }
      s.iput n

inductive Step : Vfs → VfsAction → Vfs → Prop
  | open {s s' n} (h : s.Lookup n s') : Step s (.open n) { s' with users := n :: s'.users }
  | close {s n} (h : n ∈ s.users) :
      Step s (.close n) { s.iput n with users := s.users.erase n }
  -- A lookup for a call that keeps no reference.
  | look {s s' n} (h : s.Lookup n s') : Step s (.look n) (s'.iput n)
  | enter {s n} (hr : 0 < (s.inode n).refcount) :
      Step s (.enter n) { s.iget n with entries := n :: s.entries }
  | leave {s n} (h : n ∈ s.entries) :
      Step s (.leave n) { s.iput n with entries := s.entries.erase n }
  | mount {s s' n i b} (h : s.Lookup n s') (hi : s.sb i = none)
      (hr : (s'.inode b.root).refcount = 0) (hd : b.ext2 = true → b.bdev.isSome) :
      Step s (.mount n i b) (s'.vfsMount n i (some b))
  | mountFails {s s' n i b} (h : s.Lookup n s') : Step s (.mount n i b) (s'.vfsMount n i none)
  | umount {s s' n} (h : s.Lookup n s') : Step s (.umount n) (s'.vfsUmount n)

def boot : Vfs where
  sb i := if i = 0 then some { ext2 := false, bdev := none, readOnly := false, root := 0 } else none
  inode n := if n = 0 then { sb := 0, isDir := true, refcount := 2 } else {}
  mounts := [⟨0, none⟩]
  rootInode := 0

def system : System Vfs VfsAction where
  init s := s = boot
  step := Step

end Vfs

end MyOS.Fs

/-! Every run of mounts and unmounts, with files held open in between. -/

namespace MyOS.Fs

open Library Function

def SuperBlock.Writes (b : SuperBlock) (d : ℕ) : Prop :=
  b.ext2 = true ∧ b.readOnly = false ∧ b.bdev = some d

namespace Vfs

variable {s s' : Vfs} {tmp : List ℕ} {n k i : ℕ}

section Fields

@[simp] lemma setInode_self (x : VfsInode) : (s.setInode n x).inode n = x := update_self ..

lemma setInode_ne (x : VfsInode) (h : k ≠ n) : (s.setInode n x).inode k = s.inode k :=
  update_of_ne h ..

end Fields

section Held

def held (s : Vfs) (tmp : List ℕ) (n : ℕ) : ℕ :=
  tmp.count n + s.users.count n + s.entries.count n +
    s.mounts.countP (fun m => s.rootOf m = some n ∧ m.mountpoint.isSome) +
    2 * s.mounts.countP fun m => m.mountpoint = some n

lemma held_setInode (x : VfsInode) : (s.setInode k x).held tmp n = s.held tmp n := rfl

lemma held_cons : s.held (k :: tmp) n = s.held tmp n + if k = n then 1 else 0 := by
  simp only [held, List.count_cons, beq_iff_eq]
  omega

end Held

structure VfsInv (s : Vfs) (tmp : List ℕ) : Prop where
  held : ∀ n, s.held tmp n ≤ (s.inode n).refcount
  root : ∀ i b, s.sb i = some b → s.held tmp b.root < (s.inode b.root).refcount ∧
    (s.inode b.root).sb = i
  known : ∀ m ∈ s.mounts, ∃ b, s.sb m.sb = some b
  once : (s.mounts.map Mount.sb).Nodup
  idle : ∀ i, s.Live i → s.Mounted i
  apart : ∀ i j b b' d, s.sb i = some b → s.sb j = some b' → s.Mounted i → s.Mounted j →
    b.Writes d → b'.Writes d → i = j

lemma held_pos_of_user (h : n ∈ s.users) : 0 < s.held tmp n := by
  have := List.count_pos_iff.2 h
  simp only [held]
  omega

lemma held_pos_of_mountpoint {m : Mount} (hm : m ∈ s.mounts) (hp : m.mountpoint = some n) :
    0 < s.held tmp n := by
  have : 0 < s.mounts.countP fun m => m.mountpoint = some n :=
    List.countP_pos_iff.2 ⟨m, hm, by simpa using hp⟩
  simp only [held]
  omega

lemma VfsInv.recount {tmp' : List ℕ} (hs : s.VfsInv tmp) (hsb : s'.sb = s.sb)
    (hmounts : s'.mounts = s.mounts)
    (hinode : ∀ k, 0 < (s.inode k).refcount → (s'.inode k).sb = (s.inode k).sb)
    (hused : ∀ i, s'.Used i → s.Live i)
    (hcount : ∀ k, s'.held tmp' k + (s.inode k).refcount ≤ s.held tmp k + (s'.inode k).refcount) :
    s'.VfsInv tmp' where
  held k := by
    have := hs.held k
    have := hcount k
    omega
  root i b hb := by
    rw [hsb] at hb
    obtain ⟨hlt, hi⟩ := hs.root i b hb
    have := hcount b.root
    exact ⟨by omega, (hinode _ (by omega)).trans hi⟩
  known m hm := by
    rw [hsb]
    exact hs.known m (hmounts ▸ hm)
  once := hmounts ▸ hs.once
  idle i hl := by
    have hmi : s'.Mounted i ↔ s.Mounted i := by rw [Mounted, Mounted, hmounts]
    rw [hmi]
    rcases hl with hm | hu | ⟨m, hm, p, hp, hpi⟩
    · exact hmi.1 hm
    · exact hs.idle i (hused i hu)
    · rw [hmounts] at hm
      have hpos := (held_pos_of_mountpoint hm hp).trans_le (hs.held p)
      exact hs.idle i (.inr (.inr ⟨m, hm, p, hp, (hinode p hpos).symm.trans hpi⟩))
  apart i j b b' d hb hb' hi hj := by
    rw [hsb] at hb hb'
    rw [Mounted, hmounts] at hi hj
    exact hs.apart i j b b' d hb hb' hi hj

lemma refcount_setInode (x : VfsInode) (k : ℕ) : ((s.setInode n x).inode k).refcount =
    if k = n then x.refcount else (s.inode k).refcount := by
  by_cases hk : k = n
  · rw [hk, setInode_self, if_pos rfl]
  · rw [setInode_ne x hk, if_neg hk]

lemma VfsInv.setInode {x : VfsInode} {tmp' : List ℕ} (hs : s.VfsInv tmp)
    (hx : 0 < (s.inode n).refcount → x.sb = (s.inode n).sb)
    (hcount : ∀ k, s.held tmp' k + (s.inode k).refcount ≤
      s.held tmp k + if k = n then x.refcount else (s.inode k).refcount) :
    (s.setInode n x).VfsInv tmp' := by
  have hsb : ∀ k, 0 < (s.inode k).refcount → ((s.setInode n x).inode k).sb = (s.inode k).sb := by
    intro k hk
    by_cases h : k = n
    · subst h
      rw [setInode_self, hx hk]
    · rw [setInode_ne x h]
  refine hs.recount rfl rfl hsb ?_ fun k => ?_
  · rintro i ⟨u, hu, rfl⟩
    exact .inr (.inl ⟨u, hu, (hsb u ((held_pos_of_user hu).trans_le (hs.held u))).symm⟩)
  · rw [held_setInode, refcount_setInode]
    exact hcount k

lemma VfsInv.iget (hs : s.VfsInv tmp) : (s.iget n).VfsInv (n :: tmp) := by
  refine hs.setInode (fun _ => rfl) fun k => ?_
  by_cases hk : k = n
  · subst hk
    rw [held_cons, if_pos rfl, if_pos rfl]
    dsimp only
    omega
  · rw [held_cons, if_neg (Ne.symm hk), if_neg hk, Nat.add_zero]

lemma VfsInv.iput (hs : s.VfsInv (n :: tmp)) : (s.iput n).VfsInv tmp := by
  have hpos := hs.held n
  rw [held_cons, if_pos rfl] at hpos
  refine hs.setInode (fun _ => rfl) fun k => ?_
  by_cases hk : k = n
  · subst hk
    rw [held_cons, if_pos rfl, if_pos rfl]
    dsimp only
    omega
  · rw [held_cons, if_neg (Ne.symm hk), if_neg hk]
    omega

lemma VfsInv.lookup (hs : s.VfsInv tmp) (h : s.Lookup n s') :
    s'.VfsInv (n :: tmp) ∧ s'.Mounted (s'.inode n).sb := by
  cases h with
  | cached hr hl =>
    refine ⟨hs.iget, ?_⟩
    rw [Vfs.iget, setInode_self]
    exact hs.idle _ hl
  | loaded hr hl =>
    refine ⟨hs.setInode (fun h => absurd hr h.ne') fun k => ?_, ?_⟩
    · by_cases hk : k = n
      · subst hk
        rw [held_cons, if_pos rfl, if_pos rfl, hr, Nat.add_zero]
      · rw [held_cons, if_neg (Ne.symm hk), if_neg hk, Nat.add_zero]
    · rw [setInode_self]
      exact hs.idle _ hl

lemma held_users (tmp us : List ℕ) : ({ s with users := us } : Vfs).held tmp n + s.users.count n =
    s.held tmp n + us.count n := by
  change tmp.count n + us.count n + s.entries.count n +
    s.mounts.countP (fun m => s.rootOf m = some n ∧ m.mountpoint.isSome) +
    2 * s.mounts.countP (fun m => m.mountpoint = some n) + s.users.count n = _
  simp only [Vfs.held]
  omega

lemma held_entries (tmp es : List ℕ) : ({ s with entries := es } : Vfs).held tmp n + s.entries.count n =
    s.held tmp n + es.count n := by
  change tmp.count n + s.users.count n + es.count n +
    s.mounts.countP (fun m => s.rootOf m = some n ∧ m.mountpoint.isSome) +
    2 * s.mounts.countP (fun m => m.mountpoint = some n) + s.entries.count n = _
  simp only [Vfs.held]
  omega

lemma count_erase (us : List ℕ) (h : n ∈ us) (k : ℕ) :
    (us.erase n).count k + (if n = k then 1 else 0) = us.count k := by
  have := List.count_pos_iff.2 h
  by_cases hk : n = k
  · subst hk
    rw [List.count_erase_self, if_pos rfl]
    omega
  · rw [List.count_erase_of_ne (Ne.symm hk), if_neg hk, Nat.add_zero]

lemma VfsInv.keep (hs : s.VfsInv (n :: tmp)) (hl : s.Mounted (s.inode n).sb) :
    ({ s with users := n :: s.users } : Vfs).VfsInv tmp := by
  refine hs.recount rfl rfl (fun _ _ => rfl) ?_ fun k => ?_
  · rintro i ⟨u, hu, rfl⟩
    rcases List.mem_cons.1 hu with rfl | hu
    · exact .inl hl
    · exact .inr (.inl ⟨u, hu, rfl⟩)
  · have := held_users (s := s) (n := k) tmp (n :: s.users)
    rw [List.count_cons] at this
    simp only [held_cons, beq_iff_eq] at this ⊢
    omega

lemma VfsInv.release (hs : s.VfsInv tmp) (h : n ∈ s.users) :
    ({ s with users := s.users.erase n } : Vfs).VfsInv (n :: tmp) := by
  refine hs.recount rfl rfl (fun _ _ => rfl) ?_ fun k => ?_
  · rintro i ⟨u, hu, rfl⟩
    exact .inr (.inl ⟨u, List.mem_of_mem_erase hu, rfl⟩)
  · have := held_users (s := s) (n := k) tmp (s.users.erase n)
    have := count_erase s.users h k
    rw [held_cons]
    dsimp only
    omega

lemma VfsInv.enter (hs : s.VfsInv (n :: tmp)) :
    ({ s with entries := n :: s.entries } : Vfs).VfsInv tmp := by
  refine hs.recount rfl rfl (fun _ _ => rfl) (fun i h => .inr (.inl h)) fun k => ?_
  have := held_entries (s := s) (n := k) tmp (n :: s.entries)
  rw [List.count_cons] at this
  simp only [held_cons, beq_iff_eq] at this ⊢
  omega

lemma VfsInv.leave (hs : s.VfsInv tmp) (h : n ∈ s.entries) :
    ({ s with entries := s.entries.erase n } : Vfs).VfsInv (n :: tmp) := by
  refine hs.recount rfl rfl (fun _ _ => rfl) (fun i h => .inr (.inl h)) fun k => ?_
  have := held_entries (s := s) (n := k) tmp (s.entries.erase n)
  have := count_erase s.entries h k
  rw [held_cons]
  dsimp only
  omega

section Mounting

variable {b : SuperBlock} {mp p : ℕ}

def attach (s : Vfs) (mp i : ℕ) (b : SuperBlock) : Vfs where
  sb := update s.sb i (some b)
  inode := update
    (update s.inode b.root { sb := i, isDir := true, refcount := 2, covered := some mp }) mp
    { s.inode mp with refcount := (s.inode mp).refcount + 1, mounted := some b.root }
  mounts := s.mounts ++ [⟨i, some mp⟩]
  users := s.users
  entries := s.entries
  rootInode := s.rootInode

lemma vfsMount_some (h : b.root ≠ mp) :
    s.vfsMount mp i (some b) = s.iput mp ∨ s.vfsMount mp i (some b) = s.attach mp i b := by
  simp only [vfsMount]
  split
  · exact .inl rfl
  split
  · exact .inl rfl
  · refine .inr ?_
    simp only [attach, setInode, update_of_ne h.symm]

lemma VfsInv.rootOf_attach (hs : s.VfsInv tmp) (hi : s.sb i = none) {m : Mount} (hm : m ∈ s.mounts) :
    (s.attach mp i b).rootOf m = s.rootOf m := by
  have hne : m.sb ≠ i := by
    rintro rfl
    obtain ⟨b', hb'⟩ := hs.known m hm
    rw [hi] at hb'
    cases hb'
  simp only [rootOf, attach, update_of_ne hne]

lemma VfsInv.held_attach (hs : s.VfsInv tmp) (hi : s.sb i = none) (us : List ℕ) (k : ℕ) :
    (s.attach mp i b).held us k = s.held us k + (if b.root = k then 1 else 0) +
      2 * if mp = k then 1 else 0 := by
  have hroots : (s.attach mp i b).mounts.countP
      (fun m => (s.attach mp i b).rootOf m = some k ∧ m.mountpoint.isSome) =
      s.mounts.countP (fun m => s.rootOf m = some k ∧ m.mountpoint.isSome) +
        if b.root = k then 1 else 0 := by
    have hold : s.mounts.countP
        (fun m => (s.attach mp i b).rootOf m = some k ∧ m.mountpoint.isSome) =
        s.mounts.countP fun m => s.rootOf m = some k ∧ m.mountpoint.isSome := by
      refine List.countP_congr fun m hm => ?_
      rw [hs.rootOf_attach hi hm]
    have hnew : (s.attach mp i b).rootOf ⟨i, some mp⟩ = some b.root := by
      simp [rootOf, attach]
    change List.countP _ (s.mounts ++ [⟨i, some mp⟩]) = _
    rw [List.countP_append, hold]
    simp [List.countP_cons, hnew]
  have hpoints : (s.attach mp i b).mounts.countP (fun m => m.mountpoint = some k) =
      s.mounts.countP (fun m => m.mountpoint = some k) + if mp = k then 1 else 0 := by
    change List.countP _ (s.mounts ++ [⟨i, some mp⟩]) = _
    rw [List.countP_append]
    simp [List.countP_cons]
  simp only [Vfs.held, hroots, hpoints]
  change us.count k + s.users.count k + s.entries.count k + _ + _ = _
  omega

lemma inode_attach_sb {k : ℕ} (hk : k ≠ b.root) : ((s.attach mp i b).inode k).sb = (s.inode k).sb := by
  by_cases h : k = mp
  · simp [Vfs.attach, h]
  · simp [Vfs.attach, h, hk]

lemma sb_attach {j : ℕ} {b' : SuperBlock} (h : (s.attach mp i b).sb j = some b') :
    j = i ∧ b' = b ∨ j ≠ i ∧ s.sb j = some b' := by
  by_cases hj : j = i
  · subst hj
    exact .inl ⟨rfl, by simpa [Vfs.attach, eq_comm] using h⟩
  · exact .inr ⟨hj, by simpa [Vfs.attach, hj] using h⟩

lemma mounted_attach {j : ℕ} (h : (s.attach mp i b).Mounted j) : j = i ∨ s.Mounted j := by
  obtain ⟨m, hm, rfl⟩ := h
  rcases List.mem_append.1 hm with hm | hm
  · exact .inr ⟨m, hm, rfl⟩
  · obtain rfl := List.mem_singleton.1 hm
    exact .inl rfl

lemma mounted_attach_old {j : ℕ} (h : s.Mounted j) : (s.attach mp i b).Mounted j := by
  obtain ⟨m, hm, hj⟩ := h
  exact ⟨m, List.mem_append_left _ hm, hj⟩

lemma VfsInv.attach (hs : s.VfsInv (mp :: tmp)) (hm : s.Mounted (s.inode mp).sb) (hi : s.sb i = none)
    (hr : (s.inode b.root).refcount = 0)
    (hfresh : ∀ j b' d, s.sb j = some b' → s.Live j → b.Writes d → ¬ b'.Writes d) :
    (s.attach mp i b).VfsInv tmp := by
  have hmp : b.root ≠ mp := by
    rintro rfl
    have := hs.held b.root
    rw [held_cons, if_pos rfl] at this
    omega
  have hroot : s.held (mp :: tmp) b.root = 0 := Nat.le_zero.1 (hr ▸ hs.held b.root)
  have hheld : ∀ k, (s.attach mp i b).held tmp k + (if mp = k then 1 else 0) =
      s.held (mp :: tmp) k + (if b.root = k then 1 else 0) + 2 * if mp = k then 1 else 0 := by
    intro k
    rw [hs.held_attach hi, held_cons]
    omega
  have hcount : ∀ k, k ≠ b.root → s.held (mp :: tmp) k + ((s.attach mp i b).inode k).refcount =
      (s.attach mp i b).held tmp k + (s.inode k).refcount := by
    intro k hk
    have := hheld k
    rw [if_neg (Ne.symm hk)] at this
    by_cases h : k = mp
    · subst h
      simp only [if_true] at this
      simp only [Vfs.attach, update_self] at this ⊢
      omega
    · rw [if_neg (Ne.symm h)] at this
      simp only [Vfs.attach, update_of_ne h, update_of_ne hk] at this ⊢
      omega
  have hnew : (s.attach mp i b).held tmp b.root < ((s.attach mp i b).inode b.root).refcount := by
    have := hheld b.root
    rw [hroot, if_neg hmp.symm, if_pos rfl] at this
    simp only [Vfs.attach, update_of_ne hmp, update_self] at this ⊢
    omega
  refine ⟨fun k => ?_, fun j b' hb' => ?_, fun m hm => ?_, ?_, fun j hl => ?_,
    fun j j' b₁ b₂ d h₁ h₂ hj hj' hw₁ hw₂ => ?_⟩
  · by_cases hk : k = b.root
    · exact hk ▸ hnew.le
    · have := hcount k hk
      have := hs.held k
      omega
  · rcases sb_attach hb' with ⟨rfl, rfl⟩ | ⟨hj, hb'⟩
    · exact ⟨hnew, by simp [Vfs.attach, update_of_ne hmp]⟩
    · obtain ⟨hlt, hj'⟩ := hs.root j b' hb'
      have hne : b'.root ≠ b.root := fun h => by
        rw [h] at hlt
        omega
      have := hcount _ hne
      exact ⟨by omega, (inode_attach_sb hne).trans hj'⟩
  · rcases List.mem_append.1 hm with hm | hm
    · obtain ⟨b', hb'⟩ := hs.known m hm
      by_cases h : m.sb = i
      · exact ⟨b, by simp [Vfs.attach, h]⟩
      · exact ⟨b', by simpa [Vfs.attach, h] using hb'⟩
    · obtain rfl := List.mem_singleton.1 hm
      exact ⟨b, by simp [Vfs.attach]⟩
  · have hnot : i ∉ s.mounts.map Mount.sb := by
      intro h
      obtain ⟨m, hm, rfl⟩ := List.mem_map.1 h
      obtain ⟨b', hb'⟩ := hs.known m hm
      rw [hi] at hb'
      cases hb'
    change (List.map Mount.sb (s.mounts ++ [⟨i, some mp⟩])).Nodup
    rw [List.map_append, List.nodup_append]
    refine ⟨hs.once, List.nodup_singleton _, fun a ha c hc h => hnot ?_⟩
    simp only [List.map_cons, List.map_nil, List.mem_singleton] at hc
    rwa [← hc, ← h]
  · have hpos : ∀ k, 0 < s.held (mp :: tmp) k → k ≠ b.root := by
      rintro k hk rfl
      omega
    rcases hl with hj | ⟨u, hu, rfl⟩ | ⟨m, hm, p, hp, rfl⟩
    · exact hj
    · rw [inode_attach_sb (hpos u (held_pos_of_user hu))]
      exact mounted_attach_old (hs.idle _ (.inr (.inl ⟨u, hu, rfl⟩)))
    · rcases List.mem_append.1 hm with hm | hm
      · rw [inode_attach_sb (hpos p (held_pos_of_mountpoint hm hp))]
        exact mounted_attach_old (hs.idle _ (.inr (.inr ⟨m, hm, p, hp, rfl⟩)))
      · obtain rfl := List.mem_singleton.1 hm
        cases hp
        rw [inode_attach_sb hmp.symm]
        exact mounted_attach_old ‹_›
  · have hlive : ∀ k, k ≠ i → (s.attach mp i b).Mounted k → s.Live k := fun k hk h =>
      .inl ((mounted_attach h).resolve_left hk)
    rcases sb_attach h₁ with ⟨rfl, rfl⟩ | ⟨hne, h₃⟩ <;>
      rcases sb_attach h₂ with ⟨rfl, rfl⟩ | ⟨hne', h₄⟩
    · rfl
    · exact absurd hw₂ (hfresh j' b₂ d h₄ (hlive j' hne' hj') hw₁)
    · exact absurd hw₁ (hfresh j b₁ d h₃ (hlive j hne hj) hw₂)
    · exact hs.apart j j' b₁ b₂ d h₃ h₄ ((mounted_attach hj).resolve_left hne)
        ((mounted_attach hj').resolve_left hne') hw₁ hw₂

lemma findMount_some {m : Mount} (h : s.findMount n = some (m, p)) :
    m ∈ s.mounts ∧ m.mountpoint = some p ∧ s.rootOf m = some n := by
  suffices ∀ ms : List Mount, ∀ found, ms.foldl (fun found m =>
      match m.mountpoint with
      | some p => if s.rootOf m = some n then some (m, p) else found
      | none => found) found = some (m, p) →
        found = some (m, p) ∨ m ∈ ms ∧ m.mountpoint = some p ∧ s.rootOf m = some n from
    (this s.mounts none h).resolve_left (by simp)
  intro ms
  induction ms with
  | nil => exact fun found h => .inl h
  | cons m' ms ih =>
    intro found h
    rcases ih _ h with h | ⟨hm, hrest⟩
    · dsimp only at h
      split at h
      · split at h
        · rename_i p' hp hr
          cases h
          exact .inr ⟨List.mem_cons_self, hp, hr⟩
        · exact .inl h
      · exact .inl h
    · exact .inr ⟨List.mem_cons_of_mem _ hm, hrest⟩

def detach (s : Vfs) (n p : ℕ) (m : Mount) : Vfs :=
  { s with
    inode := update (update s.inode p
      { s.inode p with refcount := (s.inode p).refcount - 2, mounted := none }) n
        { s.inode n with refcount := (s.inode n).refcount - 2, covered := none }
    mounts := s.mounts.erase m }

lemma vfsUmount_cases : s.vfsUmount n = s.iput n ∨
    ∃ m p, s.findMount n = some (m, p) ∧ (s.inode n).refcount ≤ 3 ∧
      (n ≠ p → s.vfsUmount n = s.detach n p m) := by
  rw [vfsUmount]
  split
  · exact .inl rfl
  · rename_i m p hfound
    split
    · exact .inl rfl
    · rename_i hle
      refine .inr ⟨m, p, hfound, not_lt.1 hle, fun hne => ?_⟩
      simp only [Vfs.iput, Vfs.setInode, detach]
      congr 1
      funext k
      by_cases hn : k = n
      · subst hn
        simp [hne]
        rfl
      · by_cases hp : k = p
        · subst hp
          simp [hn]
          rfl
        · simp [hn, hp]

lemma held_detach {m : Mount} (tmp : List ℕ) (hm : m ∈ s.mounts) (hp : m.mountpoint = some p)
    (hr : s.rootOf m = some n) (k : ℕ) : (s.detach n p m).held tmp k + (if n = k then 1 else 0) +
      2 * (if p = k then 1 else 0) = s.held tmp k := by
  have hperm := List.perm_cons_erase hm
  have hroots := hperm.countP_eq fun m => s.rootOf m = some k ∧ m.mountpoint.isSome
  have hpoints := hperm.countP_eq fun m => m.mountpoint = some k
  simp only [List.countP_cons, hr, hp, Option.some.injEq, Option.isSome_some, and_true,
    decide_eq_true_eq] at hroots hpoints
  simp only [Vfs.held, hroots, hpoints]
  change tmp.count k + s.users.count k + s.entries.count k +
    List.countP (fun m => s.rootOf m = some k ∧ m.mountpoint.isSome) (s.mounts.erase m) +
    2 * List.countP (fun m => m.mountpoint = some k) (s.mounts.erase m) + _ + _ = _
  omega

/-- No file other than the root is open in the file system, none is a working directory, and
nothing is mounted on one. -/
def Quiet (s : Vfs) (n : ℕ) : Prop := ∀ i b, s.sb i = some b → b.root = n →
  (∀ u ∈ s.users, (s.inode u).sb = i → u = n) ∧
    ∀ m ∈ s.mounts, ∀ p, m.mountpoint = some p → (s.inode p).sb = i → p = n

lemma VfsInv.detach {m : Mount} (hs : s.VfsInv (n :: tmp)) (hm : m ∈ s.mounts)
    (hp : m.mountpoint = some p) (hr : s.rootOf m = some n) (hle : (s.inode n).refcount ≤ 3)
    (hquiet : s.Quiet n) : n ≠ p ∧ (s.detach n p m).VfsInv tmp := by
  obtain ⟨b, hb, rfl⟩ := Option.map_eq_some_iff.1 hr
  have hroot := (hs.root _ b hb).1
  rw [held_cons, if_pos rfl] at hroot
  have hheld : ∀ k, _ := held_detach tmp hm hp hr
  -- the mount itself is the only one that refers to its root
  have hone : 0 < s.mounts.countP fun m => s.rootOf m = some b.root ∧ m.mountpoint.isSome :=
    List.countP_pos_iff.2 ⟨m, hm, by simp [hr, hp]⟩
  have hzero : s.users.count b.root = 0 ∧
      s.mounts.countP (fun m => m.mountpoint = some b.root) = 0 := by
    simp only [Vfs.held] at hroot
    omega
  have huser : b.root ∉ s.users := List.count_eq_zero.1 hzero.1
  have hpoint : ∀ m ∈ s.mounts, m.mountpoint ≠ some b.root := fun m' hm' h =>
    List.countP_eq_zero.1 hzero.2 m' hm' (by simpa using h)
  have hne : b.root ≠ p := fun h => hpoint m hm (h ▸ hp)
  have hsb : ∀ k, ((s.detach b.root p m).inode k).sb = (s.inode k).sb := by
    intro k
    by_cases h : k = b.root
    · simp [Vfs.detach, h]
    · by_cases h' : k = p
      · simp [Vfs.detach, h', hne.symm]
      · simp [Vfs.detach, h, h']
  have hcount : ∀ k, ((s.detach b.root p m).inode k).refcount =
      (s.inode k).refcount - if k = b.root ∨ k = p then 2 else 0 := by
    intro k
    by_cases h : k = b.root
    · simp [Vfs.detach, h]
    · by_cases h' : k = p
      · simp [Vfs.detach, h', hne.symm]
      · simp [Vfs.detach, h, h']
  have hmounts : ∀ i, (s.detach b.root p m).Mounted i → s.Mounted i := fun i ⟨m', hm', h⟩ =>
    ⟨m', List.mem_of_mem_erase hm', h⟩
  refine ⟨hne, ⟨fun k => ?_, fun j b' hb' => ?_, fun m' hm' => hs.known m' (List.mem_of_mem_erase hm'),
    ?_, fun i hl => ?_, fun i j b₁ b₂ d h₁ h₂ hi hj =>
      hs.apart i j b₁ b₂ d h₁ h₂ (hmounts i hi) (hmounts j hj)⟩⟩
  · have := hheld k
    have := hs.held k
    rw [held_cons] at this
    rw [hcount]
    split_ifs at * <;> omega
  · obtain ⟨hlt, hj⟩ := hs.root j b' hb'
    rw [held_cons] at hlt
    have := hheld b'.root
    refine ⟨?_, (hsb _).trans hj⟩
    rw [hcount]
    split_ifs at * <;> omega
  · exact hs.once.sublist (List.Sublist.map _ List.erase_sublist)
  · by_cases hi : i = m.sb
    · subst hi
      obtain ⟨hq, hq'⟩ := hquiet _ b hb rfl
      rcases hl with hl | ⟨u, hu, h⟩ | ⟨m', hm', p', hp', h⟩
      · exact hl
      · exact absurd (hq u hu ((hsb u).symm.trans h) ▸ hu) huser
      · have hm' := List.mem_of_mem_erase hm'
        exact absurd (hq' m' hm' p' hp' ((hsb p').symm.trans h) ▸ hp') (hpoint m' hm')
    · have hlive : s.Live i := by
        rcases hl with hl | ⟨u, hu, h⟩ | ⟨m', hm', p', hp', h⟩
        · exact .inl (hmounts i hl)
        · exact .inr (.inl ⟨u, hu, (hsb u).symm.trans h⟩)
        · exact .inr (.inr ⟨m', List.mem_of_mem_erase hm', p', hp', (hsb p').symm.trans h⟩)
      obtain ⟨m', hm', h⟩ := hs.idle i hlive
      refine ⟨m', (List.mem_erase_of_ne ?_).2 hm', h⟩
      rintro rfl
      exact hi h.symm

end Mounting

/-- A writable ext2 is mounted only from a device that no live one writes to, and a file system is
unmounted only when it is quiet. -/
def Exclusive (s : Vfs) : VfsAction → Prop
  | .mount _ _ b => ∀ j b' d, s.sb j = some b' → s.Live j → b.Writes d → ¬ b'.Writes d
  | .umount n => s.Quiet n
  | _ => True

structure MountSafe (s : Vfs) : Prop where
  oneWriter : ∀ i j b b' d, s.sb i = some b → s.sb j = some b' → s.Live i → s.Live j →
    b.Writes d → b'.Writes d → i = j
  idle : ∀ i, ¬ s.Mounted i → ¬ s.Used i

lemma VfsInv.mountSafe (hs : s.VfsInv tmp) : s.MountSafe where
  oneWriter i j b b' d h h' hi hj := hs.apart i j b b' d h h' (hs.idle i hi) (hs.idle j hj)
  idle i hi hu := hi (hs.idle i (.inr (.inl hu)))

section Runs

lemma Lookup.same (h : s.Lookup n s') : s'.sb = s.sb ∧ s'.mounts = s.mounts ∧ s'.users = s.users ∧
    0 < (s'.inode n).refcount ∧ ∀ k, k ≠ n → s'.inode k = s.inode k := by
  cases h with
  | cached => exact ⟨rfl, rfl, rfl, by simp [iget], fun k hk => setInode_ne _ hk⟩
  | loaded => exact ⟨rfl, rfl, rfl, by simp, fun k hk => setInode_ne _ hk⟩

lemma vfsMount_none (mp : ℕ) : s.vfsMount mp i none = s.iput mp := by
  simp only [vfsMount, ite_self]

lemma VfsInv.step {a : VfsAction} (hs : s.VfsInv []) (ha : s.Exclusive a) (h : Step s a s') :
    s'.VfsInv [] := by
  cases h with
  | «open» h =>
    obtain ⟨hs', hm⟩ := hs.lookup h
    exact hs'.keep hm
  | close h => exact (hs.release h).iput
  | look h => exact (hs.lookup h).1.iput
  | enter hr => exact hs.iget.enter
  | leave h => exact (hs.leave h).iput
  | @mount t n i b h hi hr hd =>
    obtain ⟨hsb, hmounts, -, hpos, -⟩ := h.same
    obtain ⟨hs', hm⟩ := hs.lookup h
    have hne : b.root ≠ n := by
      rintro rfl
      omega
    rcases vfsMount_some (s := t) (i := i) hne with he | he
    · rw [he]
      exact hs'.iput
    · rw [he]
      refine hs'.attach hm (hsb ▸ hi) hr fun j b' d hb' hj hw => ?_
      obtain ⟨m, hmem, hmj⟩ := hs'.idle j hj
      exact ha j b' d (hsb ▸ hb') (.inl ⟨m, hmounts ▸ hmem, hmj⟩) hw
  | mountFails h =>
    rw [vfsMount_none]
    exact (hs.lookup h).1.iput
  | @umount t n h =>
    obtain ⟨hsb, hmounts, husers, -, hother⟩ := h.same
    obtain ⟨hs', -⟩ := hs.lookup h
    rcases vfsUmount_cases (s := t) (n := n) with he | ⟨m, p, hfound, hle, he⟩
    · rw [he]
      exact hs'.iput
    · obtain ⟨hmem, hp, hr⟩ := findMount_some hfound
      have hquiet : t.Quiet n := by
        intro i b hb hroot
        obtain ⟨hq, hq'⟩ := ha i b (hsb ▸ hb) hroot
        refine ⟨fun u hu hi => ?_, fun m' hm' p' hp' hi => ?_⟩
        · by_contra hne
          exact hne (hq u (husers ▸ hu) (hother u hne ▸ hi))
        · by_contra hne
          exact hne (hq' m' (hmounts ▸ hm') p' hp' (hother p' hne ▸ hi))
      obtain ⟨hne, hs''⟩ := hs'.detach hmem hp hr hle hquiet
      rw [he hne]
      exact hs''

lemma boot_inv : boot.VfsInv [] := by
  have hroot : ∀ i b, boot.sb i = some b → i = 0 ∧ b.root = 0 ∧ b.ext2 = false := by
    intro i b h
    simp only [boot] at h
    split at h
    · cases h
      exact ⟨‹_›, rfl, rfl⟩
    · cases h
  have hheld : ∀ n, boot.held [] n = 0 := by
    intro n
    simp [Vfs.held, boot]
  refine ⟨fun n => ?_, fun i b h => ?_, ?_, by simp [boot], fun i h => ?_,
    fun i j b b' d h h' _ _ _ _ => ?_⟩
  · rw [hheld]
    exact Nat.zero_le _
  · obtain ⟨rfl, h0, -⟩ := hroot i b h
    rw [hheld, h0]
    exact ⟨by decide, rfl⟩
  · intro m hm
    obtain rfl := List.mem_singleton.1 hm
    exact ⟨_, rfl⟩
  · rcases h with h | ⟨u, hu, -⟩ | ⟨m, hm, p, hp, -⟩
    · exact h
    · cases hu
    · obtain rfl := List.mem_singleton.1 hm
      cases hp
  · exact (hroot i b h).1.trans (hroot j b' h').1.symm

theorem reachable_mountSafe (h : (system.guarded Exclusive).Reachable s) : s.MountSafe := by
  suffices s.VfsInv [] from this.mountSafe
  refine h.invariant (I := fun s => s.VfsInv []) ?_ fun s a s' hs h => hs.step h.1 h.2
  rintro s rfl
  exact boot_inv

end Runs

section Examples

lemma reachable_step {c : Vfs → VfsAction → Prop} {a : VfsAction}
    (h : (system.guarded c).Reachable s) (hs : Step s a s') (hc : c s a) :
    (system.guarded c).Reachable s' := .step a h ⟨hc, hs⟩

def disk (r : ℕ) : SuperBlock := { ext2 := true, bdev := some 0, readOnly := false, root := r }

theorem reachable_mountSafe_disk : MountSafe
    ((({ boot.setInode 1 { sb := 0, isDir := true, refcount := 1 } with users := [1] } : Vfs).iget
      1).vfsMount 1 1 (some (disk 2))) := by
  have h₀ : (system.guarded Exclusive).Reachable boot := .init rfl
  have h₁ := reachable_step h₀ (.open (n := 1) (.loaded (i := 0) (d := true) rfl
    (.inl ⟨_, List.mem_cons_self, rfl⟩))) trivial
  have h₂ := reachable_step (a := .mount 1 1 (disk 2)) h₁
    (.mount (.cached (by decide) (.inl ⟨_, List.mem_cons_self, rfl⟩)) rfl rfl fun _ => rfl) ?_
  · exact reachable_mountSafe h₂
  · intro j b' d hb' _ _ hw
    change (if j = 0 then some _ else none) = some b' at hb'
    split at hb'
    · cases hb'
      exact absurd hw.1 (by decide)
    · cases hb'

theorem not_mountSafe_races : (¬ ∀ s, system.Reachable s → ∀ i j b b' d, s.sb i = some b →
      s.sb j = some b' → s.Live i → s.Live j → b.Writes d → b'.Writes d → i = j) ∧
    ¬ ∀ s, system.Reachable s → ∀ i, ¬ s.Mounted i → ¬ s.Used i := by
  have h₀ : (system.guarded fun _ _ => True).Reachable boot := .init rfl
  have h₁ := reachable_step h₀ (.open (n := 1) (.loaded (i := 0) (d := true) rfl
    (.inl ⟨_, List.mem_cons_self, rfl⟩))) trivial
  have h₂ := reachable_step (a := .mount 1 1 (disk 2)) h₁
    (.mount (.cached (by decide) (.inl ⟨_, List.mem_cons_self, rfl⟩)) rfl rfl fun _ => rfl) trivial
  constructor
  · intro hsafe
    have h₃ := reachable_step h₂ (.open (n := 3) (.loaded (i := 0) (d := true) rfl
      (.inl ⟨_, List.mem_cons_self, rfl⟩))) trivial
    have h := reachable_step (a := .mount 3 2 (disk 4)) h₃
      (.mount (.cached (by decide) (.inl ⟨_, List.mem_cons_self, rfl⟩)) rfl rfl fun _ => rfl) trivial
    have := hsafe _ h.of_guarded 1 2 (disk 2) (disk 4) 0 rfl rfl
      (.inl ⟨⟨1, some 1⟩, by decide, rfl⟩) (.inl ⟨⟨2, some 3⟩, by decide, rfl⟩)
      ⟨rfl, rfl, rfl⟩ ⟨rfl, rfl, rfl⟩
    cases this
  · intro hsafe
    have h₃ := reachable_step h₂ (.open (n := 3) (.loaded (i := 1) (d := false) rfl
      (.inl ⟨⟨1, some 1⟩, by decide, rfl⟩))) trivial
    have h := reachable_step (a := .umount 2) h₃
      (.umount (.cached (by decide) (.inl ⟨⟨1, some 1⟩, by decide, rfl⟩))) trivial
    refine hsafe _ h.of_guarded 1 ?_ ⟨3, by decide, rfl⟩
    rintro ⟨m, hm, hi⟩
    have hm' : m ∈ [(⟨0, none⟩ : Mount)] := hm
    obtain rfl := List.mem_singleton.1 hm'
    cases hi

end Examples

end Vfs

end MyOS.Fs
