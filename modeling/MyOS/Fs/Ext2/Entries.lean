import MyOS.Fs.Ext2.Dirent

/-! The entries of a directory, and what `dir_find`, `dir_add` and `dir_remove` do to them. -/

namespace MyOS.Fs.Ext2

structure Entry where
  name : Name
  inode : ℕ
  fileType : UInt8
  deriving DecidableEq

def Rec.entry (r : Rec) : Option Entry :=
  if r.inode = 0 then none else some ⟨r.name, r.inode, r.fileType⟩

def live (rs : List Rec) : List Entry := rs.filterMap Rec.entry

def blockEntries (bs : ℕ) : Option Block → List Entry
  | none => []
  | some b => live (records bs b)

def entries (bs : ℕ) (dir : Dir) : List Entry := dir.flatMap (blockEntries bs)

def BlockTiled (bs : ℕ) (b : Block) : Prop := Tiled bs b 0 (records bs b) bs

def WellFormed (bs : ℕ) (dir : Dir) : Prop := ∀ b, some b ∈ dir → BlockTiled bs b

def BlockSize (bs : ℕ) : Prop := bs = 1024 ∨ bs = 2048 ∨ bs = 4096

instance (bs : ℕ) : Decidable (BlockSize bs) := inferInstanceAs (Decidable (_ ∨ _ ∨ _))

namespace BlockSize

variable {bs : ℕ}

lemma lt (h : BlockSize bs) : bs < 65536 := by unfold BlockSize at h; omega

lemma le (h : BlockSize bs) : 264 ≤ bs := by unfold BlockSize at h; omega

lemma mod (h : BlockSize bs) : bs % 4 = 0 := by unfold BlockSize at h; omega

end BlockSize

variable {bs : ℕ} {b b' : Block} {off p q stop : ℕ} {r : Rec} {rs : List Rec} {name : Name}
  {ft : UInt8} {ino : ℕ} {dir : Dir} {rd : ℕ → Bool}

lemma Tiled.blockTiled (h : Tiled bs b 0 rs bs) : BlockTiled bs b := by
  unfold BlockTiled
  rwa [h.records]

lemma Tiled.blockEntries (h : Tiled bs b 0 rs bs) : blockEntries bs (some b) = live rs := by
  change live (Ext2.records bs b) = live rs
  rw [h.records]

lemma Tiled.recAt (h : Tiled bs b off rs stop) (hr : r ∈ rs) : recAt b r.off = r := by
  induction rs generalizing off with
  | nil => simp at hr
  | cons x rs ih =>
    rcases List.mem_cons.1 hr with rfl | hr
    · obtain ⟨h₁, -, -⟩ := h
      rw [← h₁]
      rfl
    · exact ih h.2.2 hr

section Blocks

lemma recSize_name (hn : name.length ≤ nameMax) : recSize name.length ≤ 264 := by
  unfold recSize nameMax at *
  omega

lemma findVisit_eq (name : Name) (h : recAt b r.off = r) (prev : Option ℕ) : findVisit name b r.off prev =
    if r.inode ≠ 0 ∧ r.name = name then some (b, r.inode, r.fileType) else none := by
  conv_rhs => rw [← h]
  rfl

lemma scan_find (h : ∀ r ∈ rs, recAt b r.off = r) (prev : Option ℕ) :
    scan (findVisit name) b prev rs =
      ((live rs).find? fun e => e.name = name).map fun e => (b, e.inode, e.fileType) := by
  induction rs generalizing prev with
  | nil => rfl
  | cons r rs ih =>
    have hr := findVisit_eq name (h r List.mem_cons_self) prev
    have hrec := ih (fun x hx => h x (List.mem_cons_of_mem _ hx)) (some r.off)
    unfold scan
    rw [hr]
    by_cases hi : r.inode = 0
    · have hl : live (r :: rs) = live rs := by simp [live, Rec.entry, hi]
      simp [hi, hl, hrec]
    · have hl : live (r :: rs) = ⟨r.name, r.inode, r.fileType⟩ :: live rs := by
        simp [live, Rec.entry, hi]
      by_cases hn : r.name = name
      · simp [hi, hl, hn]
      · simp [hi, hl, hn, hrec]

def added (r : Rec) (ino : ℕ) (ft : UInt8) (name : Name) : List Rec :=
  if r.inode ≠ 0 then
    [{ r with recLen := recSize r.name.length },
      ⟨r.off + recSize r.name.length, ino, r.recLen - recSize r.name.length, ft, name⟩]
  else [⟨r.off, ino, r.recLen, ft, name⟩]

lemma addVisit_some {prev : Option ℕ} {x : Block × Unit} (hs : bs < 65536)
    (hi : ino < 2 ^ 32) (hn : name.length ≤ nameMax) (h : recAt b r.off = r) (hr : r.Fits bs)
    (hx : addVisit name ino ft b r.off prev = some x) :
    Tiled bs x.1 r.off (added r ino ft name) (r.off + r.recLen) ∧
      ∀ y, y < r.off ∨ r.off + r.recLen ≤ y → x.1 y = b y := by
  have hino : inodeAt b r.off = r.inode := congrArg Rec.inode h
  have hlen : recLenAt b r.off = r.recLen := congrArg Rec.recLen h
  have hname : nameLenAt b r.off = r.name.length := by
    rw [← length_nameAt]
    exact congrArg (fun r => (Rec.name r).length) h
  have hneed : 8 + name.length ≤ recSize name.length := recSize_le
  have hneed4 : recSize name.length % 4 = 0 := recSize_mod
  have hused : 8 + r.name.length ≤ recSize r.name.length := recSize_le
  have hused4 : recSize r.name.length % 4 = 0 := recSize_mod
  obtain ⟨h8, h4, hin, hfit⟩ := hr
  simp only [addVisit, hino, hlen, hname] at hx
  by_cases h0 : r.inode = 0
  · -- the free record is taken as it is
    simp only [h0, ne_eq, not_true_eq_false, if_false, Nat.sub_zero] at hx
    split_ifs at hx with hroom
    cases hx
    have hrec := recAt_setEntry (b := b) (d := r.off) ft hi hn
    rw [hlen] at hrec
    constructor
    · simp only [added, h0, ne_eq, not_true_eq_false, if_false]
      exact ⟨hrec, ⟨h8, h4, hin, not_lt.1 hroom⟩, rfl⟩
    · intro y hy
      exact setEntry_of_not_mem (by omega)
  · -- the record keeps what its name needs, the rest becomes the new one
    simp only [h0, ne_eq, not_false_eq_true, if_true] at hx
    split_ifs at hx with hroom
    cases hx
    set u := recSize r.name.length with hu
    set c := setRecLen (setRecLen b (r.off + u) (r.recLen - u)) r.off u with hc
    have hc₁ : ∀ y, y < r.off + 4 ∨ r.off + 6 ≤ y ∧ y < r.off + u + 4 ∨ r.off + u + 6 ≤ y →
        c y = b y := by
      intro y hy
      rw [hc, setRecLen_of_not_mem (by omega), setRecLen_of_not_mem (by omega)]
    have hold : Ext2.recAt c r.off = { r with recLen := u } := by
      rw [hc, recAt_setRecLen (by omega)]
      have hkeep : Ext2.recAt (setRecLen b (r.off + u) (r.recLen - u)) r.off =
          Ext2.recAt b r.off := by
        apply recAt_congr
        intro y h₁ h₂
        exact setRecLen_of_not_mem (by omega)
      rw [hkeep, h]
    have hnew : recLenAt c (r.off + u) = r.recLen - u := by
      have h₁ : recLenAt (setRecLen b (r.off + u) (r.recLen - u)) (r.off + u) = r.recLen - u :=
        congrArg Rec.recLen (recAt_setRecLen (by omega))
      rw [← h₁]
      apply Library.Bytes.read_congr
      intro y h₂ h₃
      exact setRecLen_of_not_mem (by omega)
    have hrec := recAt_setEntry (b := c) (d := r.off + u) ft hi hn
    rw [hnew] at hrec
    have hold' : Ext2.recAt (setEntry c (r.off + u) ino ft name) r.off = { r with recLen := u } := by
      rw [← hold]
      apply recAt_congr
      intro y h₁ h₂
      have h₃ : nameLenAt c r.off = r.name.length := by
        rw [← length_nameAt]
        exact congrArg (fun r => (Rec.name r).length) hold
      exact setEntry_of_not_mem (by omega)
    constructor
    · simp only [added, h0, ne_eq, not_false_eq_true, if_true]
      refine ⟨hold', ⟨by simp only; omega, hused4, by simp only; omega, le_rfl⟩, hrec,
        ⟨by simp only; omega, by simp only; omega, by simp only; omega, not_lt.1 hroom⟩, ?_⟩
      simp only [Tiled]
      omega
    · intro y hy
      change setEntry c (r.off + u) ino ft name y = b y
      rw [setEntry_of_not_mem (by omega), hc₁ y (by omega)]

def newEntry (name : Name) (ino : ℕ) (ft : UInt8) : List Entry :=
  if ino = 0 then [] else [⟨name, ino, ft⟩]

lemma live_append {ss : List Rec} : live (rs ++ ss) = live rs ++ live ss := List.filterMap_append

lemma live_added : live (added r ino ft name) = live [r] ++ newEntry name ino ft := by
  by_cases h0 : r.inode = 0
  · by_cases hi : ino = 0 <;> simp [added, newEntry, live, Rec.entry, h0, hi]
  · by_cases hi : ino = 0 <;> simp [added, newEntry, live, Rec.entry, h0, hi]

lemma live_split {l t : List Rec} : live (l ++ r :: t) = live l ++ live [r] ++ live t := by
  rw [List.append_cons, live_append, live_append]

lemma Tiled.split {l t : List Rec} (h : Tiled bs b off (l ++ r :: t) stop) :
    Tiled bs b off l r.off ∧ Ext2.recAt b r.off = r ∧ r.Fits bs ∧
      Tiled bs b (r.off + r.recLen) t stop := by
  obtain ⟨mid, h₁, h₂, h₃, h₄⟩ := tiled_append.1 h
  obtain rfl : r.off = mid := by rw [← h₂]; rfl
  exact ⟨h₁, h₂, h₃, h₄⟩

lemma records_add {x : Block × Unit} (hs : bs < 65536) (hi : ino < 2 ^ 32)
    (hn : name.length ≤ nameMax) (hb : BlockTiled bs b)
    (hx : walk bs (addVisit name ino ft) b bs 0 none = some x) :
    ∃ l r t, records bs b = l ++ r :: t ∧ Tiled bs x.1 0 (l ++ added r ino ft name ++ t) bs := by
  rw [Tiled.walk_block hb] at hx
  obtain ⟨l, r, t, hrs, hv, -⟩ := scan_some hx
  unfold BlockTiled at hb
  rw [hrs] at hb
  obtain ⟨hl, hat, hr, ht⟩ := hb.split
  obtain ⟨hadd, hframe⟩ := addVisit_some hs hi hn hat hr hv
  exact ⟨l, r, t, hrs, Tiled.replace hl hadd (m := [r]) ⟨hat, hr, rfl⟩ ht hframe⟩

lemma walk_add {x : Block × Unit} (hs : bs < 65536) (hi : ino < 2 ^ 32)
    (hn : name.length ≤ nameMax) (hb : BlockTiled bs b)
    (hx : walk bs (addVisit name ino ft) b bs 0 none = some x) :
    BlockTiled bs x.1 ∧ ∃ l m, blockEntries bs (some b) = l ++ m ∧
      blockEntries bs (some x.1) = l ++ newEntry name ino ft ++ m := by
  obtain ⟨l, r, t, hrs, hnew⟩ := records_add hs hi hn hb hx
  refine ⟨hnew.blockTiled, live l ++ live [r], live t, ?_, ?_⟩
  · rw [blockEntries, hrs, live_split]
  · rw [hnew.blockEntries, live_append, live_append, live_added, ← List.append_assoc]

lemma removeVisit_eq (h : recAt b r.off = r) (prev : Option ℕ) :
    removeVisit name b r.off prev = if r.inode ≠ 0 ∧ r.name = name then
      match prev with
      | some p => some (setRecLen b p (recLenAt b p + r.recLen), ())
      | none => some (setInode b r.off 0, ())
    else none := by
  conv_rhs => rw [← h]
  rfl

lemma records_remove {x : Block × Unit} (hs : bs < 65536) (hb : BlockTiled bs b)
    (hx : walk bs (removeVisit name) b bs 0 none = some x) :
    ∃ l r t, records bs b = l ++ r :: t ∧ r.inode ≠ 0 ∧ r.name = name ∧
      (l = [] ∧ Tiled bs x.1 0 ({ r with inode := 0 } :: t) bs ∨
        ∃ l' p, l = l' ++ [p] ∧
          Tiled bs x.1 0 (l' ++ { p with recLen := p.recLen + r.recLen } :: t) bs) := by
  rw [Tiled.walk_block hb] at hx
  obtain ⟨l, r, t, hrs, hv, -⟩ := scan_some hx
  unfold BlockTiled at hb
  rw [hrs] at hb
  obtain ⟨hl, hat, hr, ht⟩ := hb.split
  rw [removeVisit_eq hat] at hv
  split_ifs at hv with hmatch
  refine ⟨l, r, t, hrs, hmatch.1, hmatch.2, ?_⟩
  rcases List.eq_nil_or_concat l with rfl | ⟨l', p, rfl⟩
  · -- the first record of the block stays as free space
    cases show some (setInode b r.off 0, ()) = some x from hv
    have hrec : recAt (setInode b r.off 0) r.off = { r with inode := 0 } := by
      rw [recAt_setInode (by decide), hat]
    have hblank : Tiled bs (setInode b r.off 0) r.off [{ r with inode := 0 }]
        (r.off + r.recLen) := ⟨hrec, ⟨hr.1, hr.2, hr.3, hr.4⟩, rfl⟩
    have hone : Tiled bs b r.off [r] (r.off + r.recLen) := ⟨hat, hr, rfl⟩
    refine .inl ⟨rfl, Tiled.replace hl hblank hone ht fun y hy => ?_⟩
    have := hr.header
    exact setInode_of_not_mem (by omega)
  · -- the record before it swallows it
    rw [List.concat_eq_append] at hl
    have hlast : lastOff none (l'.concat p) = some p.off := by simp [lastOff]
    rw [hlast] at hv
    obtain rfl := Option.some.inj (show some (setRecLen b p.off (recLenAt b p.off + r.recLen), ())
      = some x from hv)
    obtain ⟨hl', hpat, hp, hend⟩ := hl.split
    have hpr : p.off + p.recLen = r.off := hend
    have hlen : recLenAt b p.off = p.recLen := congrArg Rec.recLen hpat
    have hin := hr.inside
    have h8 := hp.header
    have hrec : recAt (setRecLen b p.off (recLenAt b p.off + r.recLen)) p.off =
        { p with recLen := p.recLen + r.recLen } := by
      rw [hlen, recAt_setRecLen (by omega), hpat]
    have hfit : Rec.Fits bs { p with recLen := p.recLen + r.recLen } := by
      have h₁ := hp.aligned
      have h₂ := hr.aligned
      exact ⟨by simp only; omega, by simp only; omega, by simp only; omega,
        le_trans hp.name (Nat.le_add_right _ _)⟩
    have hmerged : Tiled bs (setRecLen b p.off (recLenAt b p.off + r.recLen)) p.off
        [{ p with recLen := p.recLen + r.recLen }] (p.off + (p.recLen + r.recLen)) :=
      ⟨hrec, hfit, rfl⟩
    have htwo : Tiled bs b p.off [p, r] (p.off + (p.recLen + r.recLen)) := by
      refine ⟨hpat, hp, ?_, hr, ?_⟩
      · rw [hpr, hat]
      · exact Nat.add_assoc _ _ _
    have hrest : Tiled bs b (p.off + (p.recLen + r.recLen)) t bs := by
      rwa [← Nat.add_assoc, hpr]
    have hnew : Tiled bs (setRecLen b p.off (recLenAt b p.off + r.recLen)) 0
        (l' ++ [{ p with recLen := p.recLen + r.recLen }] ++ t) bs := by
      apply Tiled.replace hl' hmerged htwo hrest
      intro y hy
      exact setRecLen_of_not_mem (by omega)
    refine .inr ⟨l', p, List.concat_eq_append, ?_⟩
    rwa [List.append_assoc] at hnew

lemma walk_remove {x : Block × Unit} (hs : bs < 65536) (hb : BlockTiled bs b)
    (hx : walk bs (removeVisit name) b bs 0 none = some x) :
    BlockTiled bs x.1 ∧ ∃ l e m, e.name = name ∧ blockEntries bs (some b) = l ++ e :: m ∧
      blockEntries bs (some x.1) = l ++ m := by
  obtain ⟨l, r, t, hrs, hino, hname, hnew⟩ := records_remove hs hb hx
  have hlive : live [r] = [⟨r.name, r.inode, r.fileType⟩] := by simp [live, Rec.entry, hino]
  have hold : blockEntries bs (some b) = live l ++ ⟨r.name, r.inode, r.fileType⟩ :: live t := by
    rw [blockEntries, hrs, live_split, hlive, List.append_assoc, List.singleton_append]
  rcases hnew with ⟨rfl, hnew⟩ | ⟨l', p, rfl, hnew⟩
  · refine ⟨hnew.blockTiled, live [], ⟨r.name, r.inode, r.fileType⟩, live t, hname, hold, ?_⟩
    rw [hnew.blockEntries]
    simp [live, Rec.entry]
  · refine ⟨hnew.blockTiled, live (l' ++ [p]), ⟨r.name, r.inode, r.fileType⟩, live t, hname,
      hold, ?_⟩
    rw [hnew.blockEntries, live_split, live_append]
    rfl

lemma walk_remove_none (hb : BlockTiled bs b)
    (hx : walk bs (removeVisit name) b bs 0 none = none) :
    ∀ e ∈ blockEntries bs (some b), e.name ≠ name := by
  rw [Tiled.walk_block hb] at hx
  intro e he hname
  obtain ⟨r, hr, hre⟩ := List.mem_filterMap.1 he
  obtain ⟨p, hp⟩ := scan_none hx r hr
  rw [removeVisit_eq (Tiled.recAt hb hr)] at hp
  unfold Rec.entry at hre
  split_ifs at hre with hi
  cases hre
  rw [if_pos ⟨hi, hname⟩] at hp
  cases p <;> simp at hp

lemma tiled_fresh (hs : BlockSize bs) (hi : ino < 2 ^ 32) (hn : name.length ≤ nameMax) :
    Tiled bs (freshBlock bs b ino ft name) 0 [⟨0, ino, bs, ft, name⟩] bs := by
  have h264 := recSize_name hn
  have hlen : recLenAt (setRecLen b 0 bs) 0 = bs :=
    congrArg Rec.recLen (recAt_setRecLen hs.lt)
  have hrec := recAt_setEntry (b := setRecLen b 0 bs) (d := 0) ft hi hn
  rw [hlen] at hrec
  have hle := hs.le
  exact ⟨hrec, ⟨le_trans (by decide) hle, hs.mod, by simp, le_trans h264 hle⟩, Nat.zero_add bs⟩

lemma blockEntries_fresh (hs : BlockSize bs) (hi : ino < 2 ^ 32) (hn : name.length ≤ nameMax) :
    blockEntries bs (some (freshBlock bs b ino ft name)) = newEntry name ino ft := by
  rw [(tiled_fresh hs hi hn).blockEntries]
  by_cases h0 : ino = 0 <;> simp [live, Rec.entry, newEntry, h0]

end Blocks

section Directories

variable {α : Type} {fn : Visit α} {i : ℕ} {dir' : Dir} {a : α}

def Passed (bs : ℕ) (rd : ℕ → Bool) (fn : Visit α) (i : ℕ) (dir : Dir) : Prop :=
  ∀ k (h : k < dir.length), rd (i + k) = true ∧
    ∀ b, dir[k] = some b → walk bs fn b bs 0 none = none

lemma passed_cons {o : Option Block} (h₁ : rd i = true)
    (h₂ : ∀ b, o = some b → walk bs fn b bs 0 none = none) (h : Passed bs rd fn (i + 1) dir) :
    Passed bs rd fn i (o :: dir) := by
  intro k hk
  cases k with
  | zero => exact ⟨h₁, h₂⟩
  | succ k =>
    have := h k (by simpa using hk)
    rwa [Nat.add_assoc, Nat.add_comm 1] at this

lemma dirIterate_finished (h : dirIterate bs rd fn i dir = .finished) : Passed bs rd fn i dir := by
  induction dir generalizing i with
  | nil => exact fun k hk => absurd hk (Nat.not_lt_zero k)
  | cons o rest ih =>
    unfold dirIterate at h
    split_ifs at h with hrd
    cases o with
    | none =>
      apply passed_cons hrd (by simp)
      apply ih
      cases hr : dirIterate bs rd fn (i + 1) rest <;> simp [hr, Iterated.cons] at h ⊢
    | some b =>
      cases hw : walk bs fn b bs 0 none with
      | some x => simp [hw] at h
      | none =>
        apply passed_cons hrd (by simpa using hw)
        apply ih
        cases hr : dirIterate bs rd fn (i + 1) rest <;> simp [hw, hr, Iterated.cons] at h ⊢

lemma dirIterate_stopped (h : dirIterate bs rd fn i dir = .stopped dir' a) :
    ∃ pre b b' post, dir = pre ++ some b :: post ∧ dir' = pre ++ some b' :: post ∧
      walk bs fn b bs 0 none = some (b', a) ∧ Passed bs rd fn i pre := by
  induction dir generalizing i dir' with
  | nil => simp [dirIterate] at h
  | cons o rest ih =>
    unfold dirIterate at h
    split_ifs at h with hrd
    cases o with
    | none =>
      cases hr : dirIterate bs rd fn (i + 1) rest with
      | finished | failed => simp [hr, Iterated.cons] at h
      | stopped d x =>
        simp only [hr, Iterated.cons, Iterated.stopped.injEq] at h
        obtain ⟨rfl, rfl⟩ := h
        obtain ⟨pre, b, b', post, rfl, rfl, h₁, h₂⟩ := ih hr
        exact ⟨none :: pre, b, b', post, rfl, rfl, h₁, passed_cons hrd (by simp) h₂⟩
    | some c =>
      cases hw : walk bs fn c bs 0 none with
      | some x =>
        simp only [hw, Iterated.stopped.injEq] at h
        obtain ⟨rfl, rfl⟩ := h
        exact ⟨[], c, x.1, rest, rfl, rfl, hw, fun k hk => absurd hk (Nat.not_lt_zero k)⟩
      | none =>
        cases hr : dirIterate bs rd fn (i + 1) rest with
        | finished | failed => simp [hw, hr, Iterated.cons] at h
        | stopped d x =>
          simp only [hw, hr, Iterated.cons, Iterated.stopped.injEq] at h
          obtain ⟨rfl, rfl⟩ := h
          obtain ⟨pre, b, b', post, rfl, rfl, h₁, h₂⟩ := ih hr
          exact ⟨some c :: pre, b, b', post, rfl, rfl, h₁, passed_cons hrd (by simpa using hw) h₂⟩

lemma dirIterate_failed (h : dirIterate bs rd fn i dir = .failed) :
    ∃ k, k < dir.length ∧ rd (i + k) = false := by
  induction dir generalizing i with
  | nil => simp [dirIterate] at h
  | cons o rest ih =>
    by_cases hrd : rd i = true
    · have hrest : dirIterate bs rd fn (i + 1) rest = .failed := by
        unfold dirIterate at h
        rw [if_pos hrd] at h
        cases o with
        | none => cases hr : dirIterate bs rd fn (i + 1) rest <;> simp [hr, Iterated.cons] at h ⊢
        | some b =>
          cases hw : walk bs fn b bs 0 none with
          | some x => simp [hw] at h
          | none =>
            cases hr : dirIterate bs rd fn (i + 1) rest <;> simp [hw, hr, Iterated.cons] at h ⊢
      obtain ⟨k, hk, hf⟩ := ih hrest
      refine ⟨k + 1, by simpa using hk, ?_⟩
      rwa [Nat.add_assoc, Nat.add_comm 1] at hf
    · exact ⟨0, by simp, by simpa using hrd⟩

lemma entries_append {dir₂ : Dir} : entries bs (dir ++ dir₂) = entries bs dir ++ entries bs dir₂ :=
  List.flatMap_append

lemma entries_split {pre post : Dir} {o : Option Block} :
    entries bs (pre ++ o :: post) = entries bs pre ++ blockEntries bs o ++ entries bs post := by
  simp [entries]

lemma walk_find (name : Name) (hb : BlockTiled bs b) : walk bs (findVisit name) b bs 0 none =
    ((blockEntries bs (some b)).find? fun e => e.name = name).map
      fun e => (b, e.inode, e.fileType) := by
  rw [Tiled.walk_block hb]
  exact scan_find (fun r hr => Tiled.recAt hb hr) none

def lookup (es : List Entry) (name : Name) : ℕ :=
  match es.find? fun e => e.name = name with
  | some e => e.inode
  | none => 0

lemma dirIterate_find (hw : WellFormed bs dir) (hrd : ∀ k, k < dir.length → rd (i + k) = true) :
    dirIterate bs rd (findVisit name) i dir =
      match (entries bs dir).find? fun e => e.name = name with
      | some e => .stopped dir (e.inode, e.fileType)
      | none => .finished := by
  induction dir generalizing i with
  | nil => rfl
  | cons o rest ih =>
    have hi : rd i = true := hrd 0 (by simp)
    have hrest := ih (i := i + 1) (fun b hb => hw b (List.mem_cons_of_mem _ hb)) fun k hk => by
      have := hrd (k + 1) (by simpa using hk)
      rwa [Nat.add_comm k, ← Nat.add_assoc] at this
    unfold dirIterate
    rw [if_pos hi]
    cases o with
    | none =>
      have he : entries bs (none :: rest) = entries bs rest := rfl
      simp only [hrest, he]
      cases (entries bs rest).find? fun e => e.name = name <;> rfl
    | some b =>
      have hb := walk_find name (hw b List.mem_cons_self)
      have he : entries bs (some b :: rest) = blockEntries bs (some b) ++ entries bs rest := rfl
      simp only [hb, he, hrest, List.find?_append]
      cases (blockEntries bs (some b)).find? fun e => e.name = name with
      | some e => rfl
      | none => cases (entries bs rest).find? fun e => e.name = name <;> rfl

lemma dirFind_eq (hw : WellFormed bs dir) (hrd : ∀ k, k < dir.length → rd k = true) :
    dirFind bs rd dir name = lookup (entries bs dir) name := by
  unfold dirFind lookup
  rw [dirIterate_find hw (by simpa using hrd)]
  cases (entries bs dir).find? fun e => e.name = name <;> rfl

lemma WellFormed.append {dir₂ : Dir} (h₁ : WellFormed bs dir) (h₂ : WellFormed bs dir₂) :
    WellFormed bs (dir ++ dir₂) := by
  intro b hb
  rcases List.mem_append.1 hb with hb | hb
  · exact h₁ b hb
  · exact h₂ b hb

lemma WellFormed.update {pre post : Dir} (h : WellFormed bs (pre ++ some b :: post))
    (hb : BlockTiled bs b') : WellFormed bs (pre ++ some b' :: post) := by
  intro c hc
  rcases List.mem_append.1 hc with hc | hc
  · exact h c (by simp [hc])
  · rcases List.mem_cons.1 hc with hc | hc
    · rwa [Option.some.inj hc]
    · exact h c (by simp [hc])

def Replaced (es es' old new : List Entry) : Prop :=
  ∃ l m, es = l ++ old ++ m ∧ es' = l ++ new ++ m

lemma dirAdd_spec (rd : ℕ → Bool) (name : Name) (ft : UInt8) (hs : BlockSize bs) (hi : ino < 2 ^ 32)
    (hw : WellFormed bs dir) (g : Growth) :
    let r := dirAdd bs rd dir name ino ft g
    WellFormed bs r.2 ∧
      (Replaced (entries bs dir) (entries bs r.2) [] (newEntry name ino ft) ∧
          name.length ≤ nameMax ∧ (r.1 = none ∨ r.1 = some .io ∧ g.written = false) ∨
        r.1 ≠ none ∧ r.2 = dir) := by
  intro r
  by_cases hn : nameMax < name.length
  · have hr : r = (some .nametoolong, dir) := if_pos hn
    rw [hr]
    exact ⟨hw, .inr ⟨by simp, rfl⟩⟩
  · have hr : r = _ := if_neg hn
    rw [not_lt] at hn
    rw [hr]
    cases hit : dirIterate bs rd (addVisit name ino ft) 0 dir with
    | failed => exact ⟨hw, .inr ⟨by simp, rfl⟩⟩
    | stopped dir' a =>
      obtain ⟨pre, b, b', post, rfl, rfl, h₁, -⟩ := dirIterate_stopped hit
      obtain ⟨h₂, l, m, h₃, h₄⟩ := walk_add hs.lt hi hn (hw b (by simp)) h₁
      refine ⟨hw.update h₂, .inl ⟨⟨entries bs pre ++ l, m ++ entries bs post, ?_, ?_⟩, hn,
        .inl rfl⟩⟩
      · rw [entries_split, h₃]
        simp
      · simp only [entries_split, h₄]
        simp
    | finished =>
      cases hg : g.block with
      | error e => exact ⟨by simpa using hw, .inr (by simp)⟩
      | ok b =>
        by_cases hrd : g.readable = true
        · simp only [hrd, if_true]
          refine ⟨hw.append ?_, .inl ⟨⟨entries bs dir, [], by simp, ?_⟩, hn, ?_⟩⟩
          · intro c hc
            cases List.mem_singleton.1 hc
            exact (tiled_fresh hs hi hn).blockTiled
          · rw [entries_append]
            simp [entries, blockEntries_fresh hs hi hn]
          · cases g.written <;> simp
        · simp only [hrd]
          exact ⟨hw, .inr ⟨by simp, rfl⟩⟩

lemma dirRemove_spec (rd : ℕ → Bool) (name : Name) (hs : BlockSize bs) (hw : WellFormed bs dir)
    (written : Bool) :
    let r := dirRemove bs rd dir name written
    WellFormed bs r.2 ∧
      ((∃ e, e.name = name ∧ Replaced (entries bs dir) (entries bs r.2) [e] [] ∧
          (r.1 = none ∨ r.1 = some .io ∧ written = false)) ∨
        r.1 = some .io ∧ r.2 = dir ∧ (∃ k, k < dir.length ∧ rd k = false) ∨
        r.1 = some .noent ∧ r.2 = dir ∧ ∀ e ∈ entries bs dir, e.name ≠ name) := by
  intro r
  have hr : r = dirRemove bs rd dir name written := rfl
  rw [hr, dirRemove]
  cases hit : dirIterate bs rd (removeVisit name) 0 dir with
  | failed => exact ⟨hw, .inr (.inl ⟨rfl, rfl, by simpa using dirIterate_failed hit⟩)⟩
  | finished =>
    refine ⟨hw, .inr (.inr ⟨rfl, rfl, ?_⟩)⟩
    intro e he
    obtain ⟨o, ho, heo⟩ := List.mem_flatMap.1 he
    cases o with
    | none => simp [blockEntries] at heo
    | some b =>
      obtain ⟨k, hk, hkb⟩ := List.getElem_of_mem ho
      exact walk_remove_none (hw b ho) ((dirIterate_finished hit k hk).2 b hkb) e heo
  | stopped dir' a =>
    obtain ⟨pre, b, b', post, rfl, rfl, h₁, -⟩ := dirIterate_stopped hit
    obtain ⟨h₂, l, e, m, h₃, h₄, h₅⟩ := walk_remove hs.lt (hw b (by simp)) h₁
    refine ⟨hw.update h₂, .inl ⟨e, h₃, ⟨entries bs pre ++ l, m ++ entries bs post, ?_, ?_⟩, ?_⟩⟩
    · rw [entries_split, h₄]
      simp
    · simp only [entries_split, h₅]
      simp
    · cases written <;> simp

end Directories

end MyOS.Fs.Ext2
