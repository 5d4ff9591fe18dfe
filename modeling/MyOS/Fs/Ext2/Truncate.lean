import MyOS.Library.Footprint
import MyOS.Library.Positional

/-! Where the disk addresses of a file's blocks are kept: in the inode, or one, two or three indirect blocks
away from it. -/

namespace MyOS.Fs.Ext2

open Library

def ndirBlocks : ℕ := 12
def indBlock : ℕ := 12
def dindBlock : ℕ := 13
def tindBlock : ℕ := 14

def AddrPerBlock (apb : ℕ) : Prop := apb = 256 ∨ apb = 512 ∨ apb = 1024

def u32 (n : ℕ) : ℕ := n % 2 ^ 32

/-- `block_path`: the indices on the way to a file block. There are as many as the function returns, none for
a block that is too far. -/
def blockPath (apb fblock : ℕ) : List ℕ :=
  if fblock < ndirBlocks then [u32 fblock]
  else
    let fblock := fblock - ndirBlocks
    if fblock < apb then [indBlock, u32 fblock]
    else
      let fblock := fblock - apb
      if fblock < apb * apb then [dindBlock, u32 (fblock / apb), u32 (fblock % apb)]
      else
        let fblock := fblock - apb * apb
        if fblock < apb * apb * apb then
          [tindBlock, u32 (fblock / (apb * apb)), u32 (fblock / apb % apb), u32 (fblock % apb)]
        else []

def maxBlocks (apb : ℕ) : ℕ := ndirBlocks + apb + apb * apb + apb * apb * apb

def rootDepth (r : ℕ) : ℕ := r + 1 - ndirBlocks

def rootBase (apb r : ℕ) : ℕ :=
  if r < indBlock then r
  else if r = indBlock then ndirBlocks
  else if r = dindBlock then ndirBlocks + apb
  else ndirBlocks + apb + apb * apb

def WellFormedPath (apb : ℕ) : List ℕ → Prop
  | [] => False
  | r :: is => r ≤ tindBlock ∧ is.length = rootDepth r ∧ ∀ i ∈ is, i < apb

variable {apb n r : ℕ} {is : List ℕ}

lemma u32_of_lt (h : n < 2 ^ 32) : u32 n = n :=
  Nat.mod_eq_of_lt h

namespace AddrPerBlock

lemma pos (h : AddrPerBlock apb) : 0 < apb := by
  unfold AddrPerBlock at h
  omega

lemma le (h : AddrPerBlock apb) : apb ≤ 1024 := by
  unfold AddrPerBlock at h
  omega

lemma lt {i : ℕ} (h : AddrPerBlock apb) (hi : i < apb) : i < 2 ^ 32 := by
  have hle := h.le
  omega

end AddrPerBlock

lemma root_cases (hr : r ≤ tindBlock) : r < ndirBlocks ∨ r = indBlock ∨ r = dindBlock ∨ r = tindBlock := by
  unfold tindBlock at hr
  unfold ndirBlocks indBlock dindBlock tindBlock
  omega

lemma root_direct (hr : r < ndirBlocks) : rootBase apb r = r ∧ rootDepth r = 0 :=
  ⟨if_pos hr, Nat.sub_eq_zero_of_le hr⟩

lemma root_ind : rootBase apb indBlock = ndirBlocks ∧ rootDepth indBlock = 1 :=
  ⟨rfl, rfl⟩

lemma root_dind : rootBase apb dindBlock = ndirBlocks + apb ∧ rootDepth dindBlock = 2 :=
  ⟨rfl, rfl⟩

lemma root_tind : rootBase apb tindBlock = ndirBlocks + apb + apb * apb ∧ rootDepth tindBlock = 3 :=
  ⟨rfl, rfl⟩

lemma exists_root (hn : n < maxBlocks apb) :
    ∃ r ≤ tindBlock, rootBase apb r ≤ n ∧ n < rootBase apb r + apb ^ rootDepth r := by
  have hcube : apb * apb * apb = apb ^ 3 := by ring
  have hsquare : apb * apb = apb ^ 2 := by ring
  by_cases h₀ : n < ndirBlocks
  · obtain ⟨hb, hd⟩ : rootBase apb n = n ∧ rootDepth n = 0 := root_direct h₀
    exact ⟨n, h₀.le.trans (by decide), hb.le, by rw [hb, hd]; exact Nat.lt_succ_self n⟩
  by_cases h₁ : n < ndirBlocks + apb
  · obtain ⟨hb, hd⟩ := @root_ind apb
    exact ⟨indBlock, by decide, hb ▸ Nat.le_of_not_lt h₀, by rw [hb, hd, pow_one]; exact h₁⟩
  by_cases h₂ : n < ndirBlocks + apb + apb * apb
  · obtain ⟨hb, hd⟩ := @root_dind apb
    exact ⟨dindBlock, by decide, hb ▸ Nat.le_of_not_lt h₁, by rw [hb, hd, ← hsquare]; exact h₂⟩
  · obtain ⟨hb, hd⟩ := @root_tind apb
    exact ⟨tindBlock, le_rfl, hb ▸ Nat.le_of_not_lt h₂, by rw [hb, hd, ← hcube]; exact hn⟩

lemma root_end_le (hr : r ≤ tindBlock) : rootBase apb r + apb ^ rootDepth r ≤ maxBlocks apb := by
  have hcube : apb ^ 3 = apb * apb * apb := by ring
  unfold maxBlocks
  obtain hr | rfl | rfl | rfl := root_cases hr
  · obtain ⟨hbase, hdepth⟩ : rootBase apb r = r ∧ rootDepth r = 0 := root_direct hr
    rw [hbase, hdepth, pow_zero]
    omega
  · obtain ⟨hbase, hdepth⟩ := @root_ind apb
    rw [hbase, hdepth, pow_one]
    omega
  · obtain ⟨hbase, hdepth⟩ := @root_dind apb
    rw [hbase, hdepth, pow_two]
    omega
  · obtain ⟨hbase, hdepth⟩ := @root_tind apb
    rw [hbase, hdepth, hcube]

/-- The file block that a path leads to, and the first one below a path that ends early. -/
def fileIndex (apb : ℕ) : List ℕ → ℕ
  | [] => 0
  | r :: is => rootBase apb r + Positional.value apb (rootDepth r) is

section Path

variable (ha : AddrPerBlock apb)

include ha in
lemma blockPath_eq (hr : r ≤ tindBlock) (hb : rootBase apb r ≤ n)
    (hn : n < rootBase apb r + apb ^ rootDepth r) :
    blockPath apb n = r :: Positional.digits apb (rootDepth r) (n - rootBase apb r) := by
  have hpos := ha.pos
  have hsquare : apb ^ 2 = apb * apb := by ring
  have hcube : apb ^ 3 = apb * apb * apb := by ring
  have hmod : ∀ k, k % apb < 2 ^ 32 := fun k => ha.lt (Nat.mod_lt k hpos)
  obtain hr | rfl | rfl | rfl := root_cases hr
  · obtain ⟨hbase, hdepth⟩ : rootBase apb r = r ∧ rootDepth r = 0 := root_direct hr
    rw [hbase, hdepth, pow_zero] at hn
    rw [hbase] at hb
    obtain rfl : n = r := Nat.le_antisymm (Nat.le_of_lt_succ hn) hb
    have h32 : n < 2 ^ 32 := hr.trans (by decide)
    rw [blockPath, if_pos hr, u32_of_lt h32, hdepth]
    rfl
  · obtain ⟨hbase, hdepth⟩ := @root_ind apb
    rw [hbase, hdepth, pow_one] at hn
    rw [hbase] at hb
    have hlt : n - ndirBlocks < apb := by omega
    rw [blockPath, if_neg hb.not_gt]
    dsimp only
    rw [if_pos hlt, u32_of_lt (ha.lt hlt), hdepth, hbase]
    simp [Positional.digits]
  · obtain ⟨hbase, hdepth⟩ := @root_dind apb
    rw [hbase, hdepth, hsquare] at hn
    rw [hbase] at hb
    have h₁ : ¬ n - ndirBlocks < apb := by omega
    have hlt : n - ndirBlocks - apb < apb * apb := by omega
    rw [blockPath, if_neg (by omega)]
    dsimp only
    rw [if_neg h₁, if_pos hlt, u32_of_lt (ha.lt (Nat.div_lt_of_lt_mul hlt)), u32_of_lt (hmod _), hdepth, hbase,
      Nat.sub_sub]
    simp [Positional.digits]
  · obtain ⟨hbase, hdepth⟩ := @root_tind apb
    rw [hbase, hdepth, hcube] at hn
    rw [hbase] at hb
    have h₁ : ¬ n - ndirBlocks < apb := by omega
    have h₂ : ¬ n - ndirBlocks - apb < apb * apb := by omega
    have hlt : n - ndirBlocks - apb - apb * apb < apb * apb * apb := by omega
    rw [blockPath, if_neg (by omega)]
    dsimp only
    rw [if_neg h₁, if_neg h₂, if_pos hlt, u32_of_lt (ha.lt (Nat.div_lt_of_lt_mul hlt)), u32_of_lt (hmod _),
      u32_of_lt (hmod _), hdepth, hbase, Nat.sub_sub, Nat.sub_sub, ← Nat.add_assoc]
    simp only [Positional.digits, hsquare, pow_one, pow_zero, Nat.div_one, Nat.mod_mul_right_mod,
      Nat.mod_mul_right_div_self]

include ha in
lemma blockPath_of_lt (hn : n < maxBlocks apb) :
    WellFormedPath apb (blockPath apb n) ∧ fileIndex apb (blockPath apb n) = n := by
  obtain ⟨r, hr, hb, hlt⟩ := exists_root hn
  have hoff : n - rootBase apb r < apb ^ rootDepth r := by omega
  rw [blockPath_eq ha hr hb hlt]
  refine ⟨⟨hr, Positional.length_digits, Positional.digits_lt hoff⟩, ?_⟩
  rw [fileIndex, Positional.value_digits hoff, Nat.add_sub_cancel' hb]

include ha in
lemma blockPath_fileIndex (h : WellFormedPath apb (r :: is)) :
    fileIndex apb (r :: is) < maxBlocks apb ∧ blockPath apb (fileIndex apb (r :: is)) = r :: is := by
  obtain ⟨hr, hlen, his⟩ := h
  have hp : Positional.Prefix apb (rootDepth r) is := ⟨hlen.le, his⟩
  have hlt := Positional.value_lt hp ha.pos
  have hend : rootBase apb r + apb ^ rootDepth r ≤ maxBlocks apb := root_end_le hr
  constructor
  · rw [fileIndex]
    omega
  · rw [fileIndex, blockPath_eq ha hr (Nat.le_add_right _ _) (by omega), Nat.add_sub_cancel_left,
      Positional.digits_value hp hlen]

end Path

theorem blockPath_bijective (ha : AddrPerBlock apb) :
    Set.BijOn (blockPath apb) {n | n < maxBlocks apb} {q | WellFormedPath apb q} ∧
    ∀ n, maxBlocks apb ≤ n → blockPath apb n = [] := by
  refine ⟨⟨fun n hn => (blockPath_of_lt ha hn).1, fun m hm n hn hmn => ?_, fun q hq => ?_⟩, fun n hn => ?_⟩
  · rw [← (blockPath_of_lt ha hm).2, ← (blockPath_of_lt ha hn).2, hmn]
  · cases q with
    | nil => exact hq.elim
    | cons r is =>
      obtain ⟨hlt, heq⟩ := blockPath_fileIndex ha hq
      exact ⟨_, hlt, heq⟩
  · unfold maxBlocks at hn
    unfold blockPath
    rw [if_neg (by omega), if_neg (by omega), if_neg (by omega), if_neg (by omega)]

theorem blockPath_bijective_1024 : Set.BijOn (blockPath 256) {n | n < maxBlocks 256}
    {q | WellFormedPath 256 q} ∧ ∀ n, maxBlocks 256 ≤ n → blockPath 256 n = [] :=
  blockPath_bijective (Or.inl rfl)

end MyOS.Fs.Ext2

/-! `ext2_truncate`: the blocks of a file from some index on are freed. -/

namespace MyOS.Fs.Ext2

open Library

/-- Where a disk address is kept: a slot of `i_block`, or an index of an indirect block. -/
inductive Cell
  | root (r : ℕ)
  | ptr (block i : ℕ)
  deriving DecidableEq

abbrev Cells := Cell → ℕ

/-- Whether `fs_bread` of an indirect block returns its buffer, whether `kmalloc` of a copy of it succeeds, and the bit that
`free_block` finds in the bitmap for a block, nothing when `fs_bread` of the bitmap fails. The file system has the blocks
from `s_first_data_block` to `s_blocks_count`. -/
structure Reading where
  bread : ℕ → Bool
  kmalloc : ℕ → Bool
  bitmap : ℕ → Option Bool
  firstDataBlock : ℕ
  blocksCount : ℕ

def freeBlock (e : Reading) (block : ℕ) : List ℕ :=
  if block < e.firstDataBlock ∨ e.blocksCount ≤ block then []
  else if e.bitmap block = some true then [block] else []

def Reading.Frees (e : Reading) (block : ℕ) : Prop :=
  e.firstDataBlock ≤ block ∧ block < e.blocksCount ∧ e.bitmap block = some true

variable (e : Reading) (apb : ℕ)

def freeTree (m : Cells) : ℕ → ℕ → List ℕ
  | 0, blk => if blk = 0 then [] else freeBlock e blk
  | d + 1, blk =>
    if blk = 0 then []
    else
      (if e.bread blk = true ∧ e.kmalloc blk = true then
        (List.range apb).flatMap fun i => freeTree m d (m (.ptr blk i))
      else []) ++ freeBlock e blk

def truncTree (keep : ℕ) : ℕ → ℕ → ℕ → Cells → ℕ × Cells × List ℕ
  | 0, base, p, m =>
    if p = 0 then (p, m, [])
    else if keep ≤ base then (0, m, freeTree e apb m 0 p)
    else (p, m, [])
  | d + 1, base, p, m =>
    let childSpan := apb ^ d
    let span := childSpan * apb
    if p = 0 then (p, m, [])
    else if keep ≤ base then (0, m, freeTree e apb m (d + 1) p)
    else if base + span ≤ keep then (p, m, [])
    else if e.bread p = false then (p, m, [])
    else
      let r := runAll (fun i m =>
        let cb := base + i * childSpan
        if cb + childSpan ≤ keep ∨ m (.ptr p i) = 0 then (m, [])
        else
          let r := truncTree keep d cb (m (.ptr p i)) m
          (if r.1 ≠ r.2.1 (.ptr p i) then Function.update r.2.1 (.ptr p i) r.1 else r.2.1, r.2.2))
        (List.range apb) m
      (p, r.1, r.2)

def truncRoots : List (ℕ × ℕ × ℕ) :=
  (List.range ndirBlocks).map (fun i => (i, 0, i)) ++
    [(indBlock, 1, 12), (dindBlock, 2, 12 + apb), (tindBlock, 3, 12 + apb + apb * apb)]

def truncAll (keep : ℕ) (m : Cells) : Cells × List ℕ :=
  runAll (fun x m =>
    let r := truncTree e apb keep x.2.1 x.2.2 (m (.root x.1)) m
    (Function.update r.2.1 (.root x.1) r.1, r.2.2)) (truncRoots apb) m

def follow (m : Cells) : ℕ → List ℕ → ℕ
  | p, [] => p
  | p, i :: is => if p = 0 then 0 else follow m (m (.ptr p i)) is

def blockAt (m : Cells) : List ℕ → ℕ
  | [] => 0
  | r :: is => follow m (m (.root r)) is

def Position : List ℕ → Prop
  | [] => False
  | r :: is => r ≤ tindBlock ∧ Positional.Prefix apb (rootDepth r) is

structure InodeTree where
  cells : Cells
  sole : ∀ q q', Position apb q → Position apb q' → blockAt cells q ≠ 0 →
    blockAt cells q = blockAt cells q' → q = q'

def CutOff (keep : ℕ) (q : List ℕ) : Prop := ∀ n, q <+: blockPath apb n → keep ≤ n

variable {apb}

namespace InodeTree

variable (t : InodeTree apb)

def dataBlocks (keep : ℕ) : Set ℕ := {b | b ≠ 0 ∧ ∃ n, keep ≤ n ∧ blockAt t.cells (blockPath apb n) = b}

def indirectBlocks (keep : ℕ) : Set ℕ :=
  {b | b ≠ 0 ∧ ∃ q n, q ≠ [] ∧ q <+: blockPath apb n ∧ q ≠ blockPath apb n ∧ CutOff apb keep q ∧
    blockAt t.cells q = b}

structure Truncated (keep : ℕ) (o : Cells × List ℕ) : Prop where
  nodup : o.2.Nodup
  freed : ∀ b, b ∈ o.2 ↔ b ∈ t.dataBlocks keep ∨ b ∈ t.indirectBlocks keep
  kept : ∀ n < keep, blockAt o.1 (blockPath apb n) = blockAt t.cells (blockPath apb n)

/-- The indirect blocks on the way to a block that is cut off are read, and copied if they are cut off; its bitmap is
read, and it is in use there. -/
def Readable (e : Reading) (keep : ℕ) : Prop :=
  ∀ q, Position apb q → blockAt t.cells q ≠ 0 → CutOff apb keep q → e.Frees (blockAt t.cells q) ∧
    ∀ q', q' ≠ [] → q' <+: q → q' ≠ q → e.bread (blockAt t.cells q') = true ∧
      (CutOff apb keep q' → e.kmalloc (blockAt t.cells q') = true)

end InodeTree

end MyOS.Fs.Ext2
