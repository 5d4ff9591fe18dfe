import MyOS.Library.System
import MyOS.Library.Tiling
import MyOS.Memory.Page

/-! The heap of a user program: blocks behind their headers, between the first break and the current one. -/

namespace MyOS.User.Malloc

open Library

def hdr : ℕ := 16

def trimKeep : ℕ := 64 * 1024

def usedMagic : ℕ := 0xA110CA7EDB10C000

def sizeAt (mem : ℕ → UInt8) (b : ℕ) : ℕ := Bytes.read mem b 8

def nextAt (mem : ℕ → UInt8) (b : ℕ) : ℕ := Bytes.read mem (b + 8) 8

/-- The break at the start of the program, which `exec` puts on a page boundary, and what becomes of each call of `sbrk`:
it fails, or the bytes above the break are those given. -/
structure Kernel where
  base : ℕ
  aligned : Memory.pageSize ∣ base
  pos : 0 < base
  high : base ≤ Memory.mmapTop
  answer : ℕ → Option (ℕ → UInt8)

/-- The memory, the break, the number of calls of `sbrk` and the variables of `malloc.c`. -/
structure Heap where
  mem : ℕ → UInt8
  brk : ℕ
  calls : ℕ := 0
  freeList : ℕ := 0
  heapBytes : ℕ := 0
  usedBytes : ℕ := 0
  usedBlocks : ℕ := 0

variable (k : Kernel)

/-- `sbrk`; `none` stands for the error. -/
def sbrk (inc : ℤ) (s : Heap) : Option ℕ × Heap :=
  match k.answer s.calls with
  | none => (none, { s with calls := s.calls + 1 })
  | some fresh =>
    if s.brk + inc < k.base ∨ Memory.mmapTop < s.brk + inc then (none, { s with calls := s.calls + 1 })
    else
      let brk := (s.brk + inc).toNat
      (some s.brk, { s with mem := fun x => if x < min s.brk brk then s.mem x else fresh x, brk := brk, calls := s.calls + 1 })

def lastBlock (mem : ℕ → UInt8) : ℕ → ℕ → Option ℕ
  | 0, _ => none
  | n + 1, b => if nextAt mem b = 0 then some b else lastBlock mem n (nextAt mem b)

def trimTop (s : Heap) : Option Heap :=
  if s.freeList = 0 then some s
  else
    (lastBlock s.mem s.heapBytes s.freeList).map fun last =>
      let (top, s) := sbrk k 0 s
      if top ≠ some (last + hdr + sizeAt s.mem last) then s
      else if sizeAt s.mem last ≤ trimKeep + 4096 then s
      else
        let release := (sizeAt s.mem last - trimKeep) / 4096 * 4096
        match sbrk k (-release) s with
        | (none, s) => s
        | (some _, s) =>
          { s with mem := Bytes.write s.mem last 8 (sizeAt s.mem last - release), heapBytes := s.heapBytes - release }

def insertFree (b : ℕ) (s : Heap) : Heap :=
  { s with mem := Bytes.write s.mem (b + 8) 8 s.freeList, freeList := b }

inductive Outcome
  | returns (p : ℕ) (s : Heap)
  | aborts
  | diverges

def free (p : ℕ) (s : Heap) : Outcome :=
  if p = 0 then .returns 0 s
  else
    let b := p - hdr
    if nextAt s.mem b ≠ usedMagic then .aborts
    else
      let s := { s with usedBytes := s.usedBytes - sizeAt s.mem b, usedBlocks := s.usedBlocks - 1 }
      match trimTop k (insertFree b s) with
      | none => .diverges
      | some s => .returns 0 s

def align16 (n : ℕ) : ℕ := (n + 15) / 16 * 16

def malloc (n : ℕ) (s : Heap) : ℕ × Heap :=
  if n = 0 ∨ 2 ^ 30 < n then (0, s)
  else
    let size := align16 n
    match sbrk k (hdr + size : ℕ) s with
    | (none, s) => (0, s)
    | (some b, s) =>
      (b + hdr, { s with mem := Bytes.write (Bytes.write s.mem b 8 size) (b + 8) 8 usedMagic,
                         heapBytes := s.heapBytes + (hdr + size), usedBytes := s.usedBytes + size,
                         usedBlocks := s.usedBlocks + 1 })

def calloc (count size : ℕ) (s : Heap) : ℕ × Heap :=
  if size ≠ 0 ∧ (2 ^ 64 - 1) / size < count then (0, s)
  else
    let n := count * size % 2 ^ 64
    let (p, s) := malloc k n s
    if p = 0 then (0, s) else (p, { s with mem := Bytes.fill s.mem p n 0 })

def realloc (p n : ℕ) (s : Heap) : Outcome :=
  if p = 0 then
    let (q, s) := malloc k n s
    .returns q s
  else if n = 0 then free k p s
  else
    let b := p - hdr
    if nextAt s.mem b ≠ usedMagic then .aborts
    else if n ≤ sizeAt s.mem b then .returns p s
    else
      let (q, s) := malloc k n s
      if q = 0 then .returns 0 s
      else
        match free k p { s with mem := Bytes.store s.mem q (Bytes.load s.mem p (sizeAt s.mem b)) } with
        | .returns _ s => .returns q s
        | outcome => outcome

def freeTotals (mem : ℕ → UInt8) : ℕ → ℕ → Option (ℕ × ℕ)
  | 0, _ => none
  | n + 1, b =>
    if b = 0 then some (0, 0)
    else (freeTotals mem n (nextAt mem b)).map fun t => (sizeAt mem b + t.1, t.2 + 1)

structure Stats where
  heapBytes : ℕ
  usedBytes : ℕ
  usedBlocks : ℕ
  freeBytes : ℕ
  freeBlocks : ℕ

def mallocGetStats (s : Heap) : Option Stats :=
  (freeTotals s.mem (s.heapBytes + 1) s.freeList).map fun t => ⟨s.heapBytes, s.usedBytes, s.usedBlocks, t.1, t.2⟩

inductive Call
  | malloc (n : ℕ)
  | calloc (count size : ℕ)
  | realloc (p n : ℕ)
  | free (p : ℕ)
  | write (a : ℕ) (l : List UInt8)

def Call.exec : Call → Heap → Outcome
  | malloc n, s => let (p, s) := Malloc.malloc k n s; .returns p s
  | calloc count size, s => let (p, s) := Malloc.calloc k count size s; .returns p s
  | realloc p n, s => Malloc.realloc k p n s
  | free p, s => Malloc.free k p s
  | write a l, s => .returns 0 { s with mem := Bytes.store s.mem a l }

/-- What the program knows: the blocks it holds, with the sizes it asked for, and all pointers that it ever obtained. -/
structure Held where
  live : List (ℕ × ℕ) := []
  seen : List ℕ := []

def Held.obtain (g : Held) (p n : ℕ) : Held :=
  if p = 0 then g else { live := (p, n) :: g.live, seen := p :: g.seen }

def Held.drop (g : Held) (p : ℕ) : Held := { g with live := g.live.filter fun x => x.1 ≠ p }

def Held.after (g : Held) : Call → ℕ → Held
  | .malloc n, r => g.obtain r n
  | .calloc count size, r => g.obtain r (count * size)
  | .realloc p n, r => if p = 0 then g.obtain r n else if n = 0 then g.drop p else if r = 0 then g else (g.drop p).obtain r n
  | .free p, _ => g.drop p
  | .write .., _ => g

/-- Pointers come from the allocator, and the program writes inside the blocks that it holds. -/
def Allowed (s : Heap) (g : Held) : Call → Prop
  | .malloc _ | .calloc .. => True
  | .realloc p _ | .free p => p = 0 ∨ p ∈ g.seen
  | .write a l => ∃ x ∈ g.live, x.1 ≤ a ∧ a + l.length ≤ x.1 + sizeAt s.mem (x.1 - hdr)

/-- A program that makes allowed calls, in any order, as long as none of them aborts. -/
def program : System (Heap × Held) Call where
  init s := (∃ mem, s.1 = { mem := mem, brk := k.base }) ∧ s.2 = {}
  step s c t := Allowed s.1 s.2 c ∧ ∃ r, c.exec k s.1 = .returns r t.1 ∧ t.2 = s.2.after c r

end MyOS.User.Malloc

/-! Runs of programs that use the heap. -/

namespace MyOS.User.Malloc

open Library

variable {k : Kernel} {s s' : Heap} {g : Held} {bs fs : List ℕ} {mem mem' : ℕ → UInt8} {a b p n : ℕ}

def extent (mem : ℕ → UInt8) (b : ℕ) : ℕ := hdr + sizeAt mem b

lemma extent_pos (mem : ℕ → UInt8) (b : ℕ) : 0 < extent mem b := Nat.add_pos_left (by decide) _

def FreeChain (mem : ℕ → UInt8) : ℕ → List ℕ → Prop
  | p, [] => p = 0
  | p, b :: fs => p = b ∧ b ≠ 0 ∧ FreeChain mem (nextAt mem b) fs

lemma FreeChain.congr (h : FreeChain mem p fs) (hnext : ∀ b ∈ fs, nextAt mem' b = nextAt mem b) : FreeChain mem' p fs := by
  induction fs generalizing p with
  | nil => exact h
  | cons b fs ih =>
    obtain ⟨rfl, h0, h⟩ := h
    refine ⟨rfl, h0, ?_⟩
    rw [hnext p List.mem_cons_self]
    exact ih h fun b hb => hnext b (List.mem_cons_of_mem _ hb)

lemma FreeChain.next_mem (h : FreeChain mem p fs) (hb : b ∈ fs) : nextAt mem b = 0 ∨ nextAt mem b ∈ fs := by
  induction fs generalizing p with
  | nil => cases hb
  | cons c fs ih =>
    obtain ⟨rfl, -, h⟩ := h
    rcases List.mem_cons.1 hb with rfl | hb
    · cases fs with
      | nil => exact .inl h
      | cons c fs => exact .inr (h.1 ▸ List.mem_cons_of_mem _ List.mem_cons_self)
    · exact (ih h hb).imp id (List.mem_cons_of_mem _)

lemma FreeChain.head (h : FreeChain mem p fs) : p = 0 ∨ p ∈ fs := by
  cases fs with
  | nil => exact .inl h
  | cons b fs => exact .inr (h.1 ▸ List.mem_cons_self)

lemma FreeChain.lastBlock (h : FreeChain mem p fs) (hp : p ≠ 0) (hn : fs.length ≤ n) :
    ∃ last ∈ fs, lastBlock mem n p = some last := by
  induction fs generalizing p n with
  | nil => exact absurd h hp
  | cons b fs ih =>
    obtain ⟨rfl, -, h⟩ := h
    obtain _ | n := n
    · cases hn
    rw [Malloc.lastBlock]
    split_ifs with h0
    · exact ⟨p, List.mem_cons_self, rfl⟩
    · obtain ⟨last, hlast, heq⟩ := ih h h0 (Nat.le_of_succ_le_succ hn)
      exact ⟨last, List.mem_cons_of_mem _ hlast, heq⟩

lemma FreeChain.totals (h : FreeChain mem p fs) (hn : fs.length < n) :
    freeTotals mem n p = some ((fs.map (sizeAt mem)).sum, fs.length) := by
  induction fs generalizing p n with
  | nil =>
    obtain _ | n := n
    · cases hn
    · rw [freeTotals, if_pos (show p = 0 from h)]
      rfl
  | cons b fs ih =>
    obtain ⟨rfl, h0, h⟩ := h
    obtain _ | n := n
    · cases hn
    · rw [freeTotals, if_neg h0, ih h (Nat.lt_of_succ_lt_succ hn), List.map_cons, List.sum_cons]
      rfl

structure Inv (k : Kernel) (s : Heap) (g : Held) (bs fs : List ℕ) : Prop where
  tiles : Tiles (extent s.mem) k.base bs s.brk
  high : s.brk ≤ Memory.mmapTop
  sizes : ∀ b ∈ bs, 16 ∣ sizeAt s.mem b
  blocks : (bs.map (· + hdr)).Perm (g.live.map Prod.fst ++ fs.map (· + hdr))
  chain : FreeChain s.mem s.freeList fs
  live : ∀ x ∈ g.live, nextAt s.mem (x.1 - hdr) = usedMagic ∧ x.2 ≤ sizeAt s.mem (x.1 - hdr)
  seen : ∀ p ∈ g.seen, ∃ b ∈ bs, p = b + hdr
  heapBytes : k.base + s.heapBytes = s.brk
  usedBytes : s.usedBytes = (g.live.map fun x => sizeAt s.mem (x.1 - hdr)).sum
  usedBlocks : s.usedBlocks = g.live.length

namespace Inv

lemma live_mem (h : Inv k s g bs fs) {x : ℕ × ℕ} (hx : x ∈ g.live) : ∃ b ∈ bs, x.1 = b + hdr := by
  have hmem : x.1 ∈ bs.map (· + hdr) := h.blocks.mem_iff.2 (List.mem_append_left _ (List.mem_map_of_mem hx))
  obtain ⟨b, hb, heq⟩ := List.mem_map.1 hmem
  exact ⟨b, hb, heq.symm⟩

lemma free_mem (h : Inv k s g bs fs) (hb : b ∈ fs) : b ∈ bs := by
  have hmem : b + hdr ∈ bs.map (· + hdr) :=
    h.blocks.mem_iff.2 (List.mem_append_right _ (List.mem_map_of_mem hb))
  obtain ⟨c, hc, heq⟩ := List.mem_map.1 hmem
  rwa [← Nat.add_right_cancel heq]

lemma nodup (h : Inv k s g bs fs) : (g.live.map Prod.fst ++ fs.map (· + hdr)).Nodup := by
  rw [← h.blocks.nodup_iff]
  exact (h.tiles.nodup (extent_pos _)).map (fun _ _ => Nat.add_right_cancel)

lemma live_notMem_free (h : Inv k s g bs fs) {x : ℕ × ℕ} (hx : x ∈ g.live) (hb : x.1 = b + hdr) : b ∉ fs := fun hf =>
  List.disjoint_of_nodup_append h.nodup (List.mem_map_of_mem hx) (hb ▸ List.mem_map_of_mem (f := (· + hdr)) hf)

lemma bounds (h : Inv k s g bs fs) (hb : b ∈ bs) : k.base ≤ b ∧ b + hdr + sizeAt s.mem b ≤ s.brk := by
  have := h.tiles.mem_bounds hb
  rw [extent] at this
  omega

lemma apart (h : Inv k s g bs fs) (ha : a ∈ bs) (hb : b ∈ bs) :
    a = b ∨ a + hdr + sizeAt s.mem a ≤ b ∨ b + hdr + sizeAt s.mem b ≤ a := by
  have := h.tiles.apart ha hb
  rw [extent, extent] at this
  omega

lemma length_free (h : Inv k s g bs fs) : 16 * bs.length ≤ s.heapBytes ∧ fs.length ≤ bs.length := by
  have hsum := h.tiles.sum
  have hheap := h.heapBytes
  have hcard : bs.length • 16 ≤ (bs.map (extent s.mem)).sum := by
    rw [← List.length_map (f := extent s.mem)]
    refine List.card_nsmul_le_sum _ _ fun x hx => ?_
    obtain ⟨b, -, rfl⟩ := List.mem_map.1 hx
    exact Nat.le_add_right ..
  rw [smul_eq_mul] at hcard
  have hlen := h.blocks.length_eq
  rw [List.length_map, List.length_append, List.length_map, List.length_map] at hlen
  omega

end Inv

def Headers (mem mem' : ℕ → UInt8) (bs : List ℕ) : Prop := ∀ b ∈ bs, ∀ x, b ≤ x → x < b + hdr → mem' x = mem x

lemma Headers.sizeAt (h : Headers mem mem' bs) (hb : b ∈ bs) : sizeAt mem' b = sizeAt mem b :=
  Bytes.read_congr fun x h₁ h₂ => h b hb x h₁ (by rw [hdr]; omega)

lemma Headers.nextAt (h : Headers mem mem' bs) (hb : b ∈ bs) : nextAt mem' b = nextAt mem b :=
  Bytes.read_congr fun x h₁ h₂ => h b hb x (by omega) (by rw [hdr]; omega)

lemma Inv.of_headers (h : Inv k s g bs fs) (hm : Headers s.mem mem bs) (calls : ℕ) :
    Inv k { s with mem := mem, calls := calls } g bs fs where
  tiles := h.tiles.congr fun b hb => congrArg (hdr + ·) (hm.sizeAt hb)
  high := h.high
  sizes b hb := by
    rw [hm.sizeAt hb]
    exact h.sizes b hb
  blocks := h.blocks
  chain := h.chain.congr fun b hb => hm.nextAt (h.free_mem hb)
  live x hx := by
    obtain ⟨b, hb, heq⟩ := h.live_mem hx
    have hlive := h.live x hx
    rw [heq, Nat.add_sub_cancel] at hlive ⊢
    rw [hm.sizeAt hb, hm.nextAt hb]
    exact hlive
  seen := h.seen
  heapBytes := h.heapBytes
  usedBytes := by
    rw [h.usedBytes]
    refine congrArg _ (List.map_congr_left fun x hx => ?_)
    obtain ⟨b, hb, heq⟩ := h.live_mem hx
    rw [heq, Nat.add_sub_cancel, hm.sizeAt hb]
  usedBlocks := h.usedBlocks

def Keeps (mem mem' : ℕ → UInt8) (live : List (ℕ × ℕ)) : Prop :=
  ∀ x ∈ live, sizeAt mem' (x.1 - hdr) = sizeAt mem (x.1 - hdr) ∧
    ∀ i, x.1 ≤ i → i < x.1 + sizeAt mem (x.1 - hdr) → mem' i = mem i

lemma sbrk_cases (k : Kernel) (inc : ℤ) (s : Heap) : sbrk k inc s = (none, { s with calls := s.calls + 1 }) ∨
    ∃ brk : ℕ, ∃ mem, (brk : ℤ) = s.brk + inc ∧ brk ≤ Memory.mmapTop ∧ (∀ x, x < s.brk → x < brk → mem x = s.mem x) ∧
      sbrk k inc s = (some s.brk, { s with mem := mem, brk := brk, calls := s.calls + 1 }) := by
  rw [sbrk]
  cases k.answer s.calls with
  | none => exact .inl rfl
  | some fresh =>
    dsimp only
    split_ifs with h
    · exact .inl rfl
    · refine .inr ⟨(s.brk + inc).toNat, _, ?_, ?_, ?_, rfl⟩
      · omega
      · omega
      · intro x h₁ h₂
        exact if_pos (lt_min h₁ h₂)

lemma align16_spec (n : ℕ) : n ≤ align16 n ∧ align16 n < n + 16 ∧ 16 ∣ align16 n := by
  rw [align16]
  omega

lemma usedMagic_lt : usedMagic < 256 ^ 8 := by norm_num [usedMagic]

lemma Inv.grow (h : Inv k s g bs fs) {size : ℕ} (hbelow : ∀ x < s.brk, mem x = s.mem x) (hsize : sizeAt mem s.brk = size)
    (hnext : nextAt mem s.brk = usedMagic) (hle : n ≤ size) (hdvd : 16 ∣ size) (htop : s.brk + (hdr + size) ≤ Memory.mmapTop)
    (calls : ℕ) :
    Inv k { s with mem := mem, brk := s.brk + (hdr + size), calls := calls, heapBytes := s.heapBytes + (hdr + size),
                   usedBytes := s.usedBytes + size, usedBlocks := s.usedBlocks + 1 }
      { live := (s.brk + hdr, n) :: g.live, seen := (s.brk + hdr) :: g.seen } (bs ++ [s.brk]) fs := by
  have hheaders : Headers s.mem mem bs := by
    intro b hb x _ hx
    have := (h.bounds hb).2
    exact hbelow x (by omega)
  have hold := h.of_headers hheaders s.calls
  exact
    { tiles := by
        have htiles := hold.tiles.concat
        rw [extent, hsize] at htiles
        exact htiles
      high := htop
      sizes := by
        intro b hb
        rcases List.mem_append.1 hb with hb | hb
        · exact hold.sizes b hb
        · rw [List.mem_singleton.1 hb, hsize]
          exact hdvd
      blocks := by
        rw [List.map_append, List.map_singleton, List.map_cons, List.cons_append]
        exact (List.perm_append_singleton _ _).trans (h.blocks.cons _)
      chain := hold.chain
      live := by
        intro x hx
        rcases List.mem_cons.1 hx with rfl | hx
        · rw [Nat.add_sub_cancel, hnext, hsize]
          exact ⟨rfl, hle⟩
        · exact hold.live x hx
      seen := by
        intro p hp
        rcases List.mem_cons.1 hp with rfl | hp
        · exact ⟨s.brk, List.mem_append_right _ List.mem_cons_self, rfl⟩
        · obtain ⟨b, hb, heq⟩ := h.seen p hp
          exact ⟨b, List.mem_append_left _ hb, heq⟩
      heapBytes := by
        have := h.heapBytes
        dsimp only
        omega
      usedBytes := by
        have hused := hold.usedBytes
        dsimp only at hused ⊢
        rw [List.map_cons, List.sum_cons, Nat.add_sub_cancel, hsize, hused, Nat.add_comm]
      usedBlocks := congrArg (· + 1) h.usedBlocks }

lemma malloc_spec (h : Inv k s g bs fs) (n : ℕ) :
    ((malloc k n s).1 = 0 ∧ (malloc k n s).2.mem = s.mem ∧ Inv k (malloc k n s).2 g bs fs) ∨
      (malloc k n s).1 = s.brk + hdr ∧ n ≤ 2 ^ 30 ∧ (∀ x < s.brk, (malloc k n s).2.mem x = s.mem x) ∧
        Inv k (malloc k n s).2 (g.obtain (s.brk + hdr) n) (bs ++ [s.brk]) fs := by
  rw [malloc]
  split_ifs with hn
  · exact .inl ⟨rfl, rfl, h⟩
  obtain ⟨hle, hlt, hdvd⟩ := align16_spec n
  dsimp only
  obtain heq | ⟨brk, mem, hbrk, htop, hmem, heq⟩ := sbrk_cases k (hdr + align16 n : ℕ) s
  · rw [heq]
    exact .inl ⟨rfl, rfl, h.of_headers (fun _ _ _ _ _ => rfl) _⟩
  rw [heq]
  dsimp only
  obtain rfl : brk = s.brk + (hdr + align16 n) := by omega
  have hsize : sizeAt (Bytes.write (Bytes.write mem s.brk 8 (align16 n)) (s.brk + 8) 8 usedMagic) s.brk = align16 n := by
    rw [sizeAt, Bytes.read_write_of_disjoint (by omega), Bytes.read_write_self]
    have : (2 : ℕ) ^ 30 + 16 < 256 ^ 8 := by norm_num
    omega
  have hnext : nextAt (Bytes.write (Bytes.write mem s.brk 8 (align16 n)) (s.brk + 8) 8 usedMagic) s.brk = usedMagic :=
    Bytes.read_write_self usedMagic_lt
  have hbelow : ∀ x < s.brk, Bytes.write (Bytes.write mem s.brk 8 (align16 n)) (s.brk + 8) 8 usedMagic x = s.mem x := by
    intro x hx
    rw [Bytes.write_of_not_mem (by omega), Bytes.write_of_not_mem (by omega)]
    exact hmem x hx (by omega)
  have hg : g.obtain (s.brk + hdr) n = { live := (s.brk + hdr, n) :: g.live, seen := (s.brk + hdr) :: g.seen } :=
    if_neg (by rw [hdr]; omega)
  rw [hg]
  exact .inr ⟨rfl, by omega, hbelow, h.grow hbelow hsize hnext hle hdvd htop _⟩

lemma perm_drop (hl : (g.live.map Prod.fst).Nodup) (hp : (p, n) ∈ g.live) : g.live.Perm ((p, n) :: (g.drop p).live) := by
  have herase : g.live.erase (p, n) = (g.drop p).live := by
    rw [hl.of_map.erase_eq_filter, Held.drop]
    refine List.filter_congr fun x hx => ?_
    rw [Bool.eq_iff_iff, bne_iff_ne, decide_eq_true_iff]
    exact not_congr ⟨fun h => congrArg Prod.fst h, fun h => List.inj_on_of_nodup_map hl hx hp h⟩
  rw [← herase]
  exact List.perm_cons_erase hp

lemma Inv.addr_lt (h : Inv k s g bs fs) (hb : b = 0 ∨ b ∈ fs) : b < usedMagic := by
  rcases hb with rfl | hb
  · norm_num [usedMagic]
  · have hbounds := (h.bounds (h.free_mem hb)).2
    have htop := h.high
    rw [usedMagic]
    rw [Memory.mmapTop] at htop
    omega

lemma Inv.insertFree (h : Inv k s g bs fs) (hx : (b + hdr, n) ∈ g.live) :
    Inv k (insertFree b { s with usedBytes := s.usedBytes - sizeAt s.mem b, usedBlocks := s.usedBlocks - 1 })
      (g.drop (b + hdr)) bs (b :: fs) ∧
      Keeps s.mem (Bytes.write s.mem (b + 8) 8 s.freeList) (g.drop (b + hdr)).live := by
  obtain ⟨c, hb, hc⟩ := h.live_mem hx
  obtain rfl : b = c := Nat.add_right_cancel hc
  have hnotfree := h.live_notMem_free hx rfl
  have hperm := perm_drop (List.nodup_append.1 h.nodup).1 hx
  have hsize : ∀ a ∈ bs, sizeAt (Bytes.write s.mem (b + 8) 8 s.freeList) a = sizeAt s.mem a := by
    intro a ha
    have := h.apart ha hb
    rw [hdr] at this
    exact Bytes.read_write_of_disjoint (by omega)
  have hnext : ∀ a ∈ bs, a ≠ b → nextAt (Bytes.write s.mem (b + 8) 8 s.freeList) a = nextAt s.mem a := by
    intro a ha hab
    have := h.apart ha hb
    rw [hdr] at this
    exact Bytes.read_write_of_disjoint (by omega)
  have hself : nextAt (Bytes.write s.mem (b + 8) 8 s.freeList) b = s.freeList :=
    Bytes.read_write_self ((h.addr_lt h.chain.head).trans usedMagic_lt)
  have hdrop : ∀ x ∈ (g.drop (b + hdr)).live, x ∈ g.live ∧ ∃ a ∈ bs, a ≠ b ∧ x.1 = a + hdr := by
    intro x hx
    obtain ⟨hmem, hne⟩ := List.mem_filter.1 hx
    obtain ⟨a, ha, heq⟩ := h.live_mem hmem
    refine ⟨hmem, a, ha, ?_, heq⟩
    rintro rfl
    exact of_decide_eq_true hne heq
  constructor
  · exact
      { tiles := h.tiles.congr fun a ha => congrArg (hdr + ·) (hsize a ha)
        high := h.high
        sizes := by
          intro a ha
          have hdvd := h.sizes a ha
          rw [← hsize a ha] at hdvd
          exact hdvd
        blocks := by
          refine h.blocks.trans (((hperm.map Prod.fst).append_right _).trans ?_)
          rw [List.map_cons, List.map_cons, List.cons_append]
          exact List.perm_middle.symm
        chain := by
          refine ⟨rfl, ?_, ?_⟩
          · have := (h.bounds hb).1
            have := k.pos
            omega
          · rw [Malloc.insertFree, hself]
            exact h.chain.congr fun a ha => hnext a (h.free_mem ha) (fun hab => hnotfree (hab ▸ ha))
        live := by
          intro x hx
          obtain ⟨hmem, a, ha, hne, heq⟩ := hdrop x hx
          have hlive := h.live x hmem
          rw [heq, Nat.add_sub_cancel] at hlive ⊢
          rw [← hsize a ha, ← hnext a ha hne] at hlive
          exact hlive
        seen := h.seen
        heapBytes := h.heapBytes
        usedBytes := by
          have hsum := (hperm.map fun x => sizeAt s.mem (x.1 - hdr)).sum_eq
          rw [List.map_cons, List.sum_cons, Nat.add_sub_cancel, ← h.usedBytes] at hsum
          have hsame : (g.drop (b + hdr)).live.map (fun x => sizeAt (Bytes.write s.mem (b + 8) 8 s.freeList) (x.1 - hdr)) =
              (g.drop (b + hdr)).live.map fun x => sizeAt s.mem (x.1 - hdr) := by
            refine List.map_congr_left fun x hx => ?_
            obtain ⟨-, a, ha, -, heq⟩ := hdrop x hx
            rw [heq, Nat.add_sub_cancel, hsize a ha]
          rw [Malloc.insertFree, hsame]
          dsimp only
          omega
        usedBlocks := by
          have hlen := hperm.length_eq
          rw [List.length_cons] at hlen
          rw [Malloc.insertFree, h.usedBlocks]
          dsimp only
          omega }
  · intro x hx
    obtain ⟨-, a, ha, hne, heq⟩ := hdrop x hx
    rw [heq, Nat.add_sub_cancel]
    refine ⟨hsize a ha, fun i h₁ h₂ => Bytes.write_of_not_mem ?_⟩
    have := h.apart ha hb
    rw [hdr] at this h₁ h₂
    omega

lemma Inv.below (h : Inv k s g bs fs) (hmem : ∀ x < s.brk, mem x = s.mem x) (calls : ℕ) :
    Inv k { s with mem := mem, calls := calls } g bs fs ∧ Keeps s.mem mem g.live := by
  have hheaders : Headers s.mem mem bs := by
    intro b hb x _ hx
    have := (h.bounds hb).2
    exact hmem x (by omega)
  refine ⟨h.of_headers hheaders calls, fun x hx => ?_⟩
  obtain ⟨b, hb, heq⟩ := h.live_mem hx
  have hbounds := (h.bounds hb).2
  rw [heq, Nat.add_sub_cancel]
  exact ⟨hheaders.sizeAt hb, fun i _ hi => hmem i (by omega)⟩

lemma Keeps.trans {mem'' : ℕ → UInt8} {live : List (ℕ × ℕ)} (h : Keeps mem mem' live) (h' : Keeps mem' mem'' live) :
    Keeps mem mem'' live := by
  intro x hx
  obtain ⟨hsize, hbytes⟩ := h x hx
  obtain ⟨hsize', hbytes'⟩ := h' x hx
  rw [hsize] at hsize' hbytes'
  exact ⟨hsize', fun i h₁ h₂ => (hbytes' i h₁ h₂).trans (hbytes i h₁ h₂)⟩

lemma Inv.shrink (h : Inv k s g bs fs) {last release brk : ℕ} (hlast : last ∈ fs)
    (hend : last + hdr + sizeAt s.mem last = s.brk) (hle : release ≤ sizeAt s.mem last) (hdvd : 16 ∣ release)
    (hbrk : brk + release = s.brk) (hmem : ∀ x < brk, mem x = s.mem x) (calls : ℕ) :
    Inv k { s with mem := Bytes.write mem last 8 (sizeAt s.mem last - release), brk := brk, calls := calls,
                   heapBytes := s.heapBytes - release } g bs fs ∧
      Keeps s.mem (Bytes.write mem last 8 (sizeAt s.mem last - release)) g.live := by
  have hin := h.free_mem hlast
  obtain ⟨init, rfl, hinit⟩ := h.tiles.eq_concat (extent_pos _) hin (by rw [extent]; omega)
  have hlt : sizeAt s.mem last < 256 ^ 8 := Bytes.read_lt
  generalize hm : Bytes.write mem last 8 (sizeAt s.mem last - release) = mem'
  have hbelow : ∀ x < brk, (x < last ∨ last + 8 ≤ x) → mem' x = s.mem x := by
    intro x hx hne
    rw [← hm, Bytes.write_of_not_mem (by omega)]
    exact hmem x hx
  have hsize : sizeAt mem' last = sizeAt s.mem last - release := by
    rw [sizeAt, ← hm]
    exact Bytes.read_write_self ((Nat.sub_le _ _).trans_lt hlt)
  have hother : ∀ b ∈ init, sizeAt mem' b = sizeAt s.mem b := by
    intro b hb
    have hb' := (hinit.mem_bounds hb).2
    rw [extent, hdr] at hb'
    exact Bytes.read_congr fun x h₁ h₂ => hbelow x (by omega) (.inl (by omega))
  have hnext : ∀ b ∈ init ++ [last], nextAt mem' b = nextAt s.mem b := by
    intro b hb
    have hbounds := (h.bounds hb).2
    have hapart := h.apart hb hin
    rw [hdr] at hbounds hapart hend
    exact Bytes.read_congr fun x h₁ h₂ => hbelow x (by omega) (by omega)
  -- what the program holds lies in front of the last block
  have hlive : ∀ x ∈ g.live, ∃ b ∈ init, x.1 = b + hdr := by
    intro x hx
    obtain ⟨b, hb, heq⟩ := h.live_mem hx
    rcases List.mem_append.1 hb with hb | hb
    · exact ⟨b, hb, heq⟩
    · obtain rfl := List.mem_singleton.1 hb
      exact absurd hlast (h.live_notMem_free hx heq)
  constructor
  · exact
      { tiles := by
          have hcongr : Tiles (extent mem') k.base init last := hinit.congr fun b hb => congrArg (hdr + ·) (hother b hb)
          have htiles := hcongr.concat
          rw [extent, hsize] at htiles
          rwa [show brk = last + (hdr + (sizeAt s.mem last - release)) by omega]
        high := by
          have := h.high
          dsimp only
          omega
        sizes := by
          intro b hb
          rcases List.mem_append.1 hb with hb | hb
          · have := h.sizes b (List.mem_append_left _ hb)
            rw [← hother b hb] at this
            exact this
          · rw [List.mem_singleton.1 hb, hsize]
            exact Nat.dvd_sub (h.sizes last hin) hdvd
        blocks := h.blocks
        chain := h.chain.congr fun b hb => hnext b (h.free_mem hb)
        live := by
          intro x hx
          obtain ⟨b, hb, heq⟩ := hlive x hx
          have := h.live x hx
          rw [heq, Nat.add_sub_cancel] at this ⊢
          rw [← hother b hb, ← hnext b (List.mem_append_left _ hb)] at this
          exact this
        seen := h.seen
        heapBytes := by
          have := h.heapBytes
          have := (h.bounds hin).1
          dsimp only
          omega
        usedBytes := by
          have hsame : g.live.map (fun x => sizeAt mem' (x.1 - hdr)) = g.live.map fun x => sizeAt s.mem (x.1 - hdr) := by
            refine List.map_congr_left fun x hx => ?_
            obtain ⟨b, hb, heq⟩ := hlive x hx
            rw [heq, Nat.add_sub_cancel, hother b hb]
          rw [hsame]
          exact h.usedBytes
        usedBlocks := h.usedBlocks }
  · intro x hx
    obtain ⟨b, hb, heq⟩ := hlive x hx
    have hb' := (hinit.mem_bounds hb).2
    rw [extent] at hb'
    rw [heq, Nat.add_sub_cancel]
    exact ⟨hother b hb, fun i h₁ h₂ => hbelow i (by omega) (.inl (by omega))⟩

lemma trimTop_spec (h : Inv k s g bs fs) : ∃ s', trimTop k s = some s' ∧ Inv k s' g bs fs ∧ Keeps s.mem s'.mem g.live := by
  rw [trimTop]
  split_ifs with h0
  · exact ⟨s, rfl, h, fun _ _ => ⟨rfl, fun _ _ _ => rfl⟩⟩
  have hcard := h.length_free
  obtain ⟨last, hlast, hloop⟩ := h.chain.lastBlock (n := s.heapBytes) h0 (by omega)
  rw [hloop, Option.map_some]
  refine ⟨_, rfl, ?_⟩
  obtain heq | ⟨brk, mem, hbrk, -, hmem, heq⟩ := sbrk_cases k 0 s
  · rw [heq]
    dsimp only
    rw [if_pos (Option.some_ne_none _).symm]
    exact h.below (fun _ _ => rfl) _
  obtain rfl : brk = s.brk := by omega
  obtain ⟨h₁, hkeeps⟩ := h.below (fun x hx => hmem x hx hx) (s.calls + 1)
  rw [heq]
  dsimp only
  split_ifs with hend hsmall
  · exact ⟨h₁, hkeeps⟩
  · exact ⟨h₁, hkeeps⟩
  have hend' : last + hdr + sizeAt mem last = s.brk := (Option.some.inj (not_not.1 hend)).symm
  generalize hrelease : (sizeAt mem last - trimKeep) / 4096 * 4096 = release
  obtain heq' | ⟨brk', mem', hbrk', -, hmem', heq'⟩ := sbrk_cases k (-release) { s with mem := mem, calls := s.calls + 1 }
  · rw [heq']
    exact ⟨h₁.of_headers (fun _ _ _ _ _ => rfl) _, hkeeps⟩
  · rw [heq']
    dsimp only at hbrk' hmem'
    rw [trimKeep] at hrelease hsmall
    rw [hdr] at hend'
    have hbelow : ∀ x < brk', mem' x = mem x := fun x hx => hmem' x (by omega) hx
    have hdvd : 16 ∣ release := by omega
    obtain ⟨h₂, hkeeps'⟩ := h₁.shrink hlast (by rw [hdr]; exact hend') (by dsimp only; omega) hdvd (by dsimp only; omega) hbelow
      (s.calls + 1 + 1)
    have hsize : sizeAt mem' last = sizeAt mem last := Bytes.read_congr fun x _ hx => hmem' x (by omega) (by omega)
    dsimp only
    rw [hsize]
    exact ⟨h₂, hkeeps.trans hkeeps'⟩

lemma Inv.mem_live (h : Inv k s g bs fs) (hp : p ∈ g.seen) : (∃ n, (p, n) ∈ g.live) ∨ ∃ b ∈ fs, p = b + hdr := by
  obtain ⟨b, hb, rfl⟩ := h.seen p hp
  have hmem := h.blocks.mem_iff.1 (List.mem_map_of_mem (f := (· + hdr)) hb)
  rcases List.mem_append.1 hmem with hlive | hfree
  · obtain ⟨x, hx, heq⟩ := List.mem_map.1 hlive
    exact .inl ⟨x.2, by rw [← heq]; exact hx⟩
  · obtain ⟨c, hc, heq⟩ := List.mem_map.1 hfree
    exact .inr ⟨c, hc, heq.symm⟩

lemma Inv.next_ne (h : Inv k s g bs fs) (hb : b ∈ fs) : nextAt s.mem b ≠ usedMagic :=
  (h.addr_lt (h.chain.next_mem hb)).ne

lemma free_aborts (h : Inv k s g bs fs) (hb : b ∈ fs) : free k (b + hdr) s = .aborts := by
  rw [free, if_neg (by rw [hdr]; omega)]
  dsimp only
  rw [Nat.add_sub_cancel, if_pos (h.next_ne hb)]

lemma free_spec (h : Inv k s g bs fs) (hx : (b + hdr, n) ∈ g.live) : ∃ s', free k (b + hdr) s = .returns 0 s' ∧
    Inv k s' (g.drop (b + hdr)) bs (b :: fs) ∧ Keeps s.mem s'.mem (g.drop (b + hdr)).live := by
  have hused := (h.live _ hx).1
  rw [Nat.add_sub_cancel] at hused
  obtain ⟨hinv, hkeeps⟩ := h.insertFree hx
  obtain ⟨s', heq, hinv', hkeeps'⟩ := trimTop_spec hinv
  refine ⟨s', ?_, hinv', hkeeps.trans hkeeps'⟩
  rw [free, if_neg (by rw [hdr]; omega)]
  dsimp only
  rw [Nat.add_sub_cancel, if_neg (not_not.2 hused), heq]

lemma Inv.payload (h : Inv k s g bs fs) {x : ℕ × ℕ} (hx : x ∈ g.live)
    (hmem : ∀ i, ¬ (x.1 ≤ i ∧ i < x.1 + sizeAt s.mem (x.1 - hdr)) → mem i = s.mem i) (calls : ℕ) :
    Inv k { s with mem := mem, calls := calls } g bs fs ∧
      (∀ y ∈ g.live, sizeAt mem (y.1 - hdr) = sizeAt s.mem (y.1 - hdr)) ∧
      ∀ y ∈ g.live, y.1 ≠ x.1 → ∀ i, y.1 ≤ i → i < y.1 + sizeAt s.mem (y.1 - hdr) → mem i = s.mem i := by
  obtain ⟨a, ha, hxa⟩ := h.live_mem hx
  rw [hxa, Nat.add_sub_cancel] at hmem
  have hheaders : Headers s.mem mem bs := by
    intro b hb i h₁ h₂
    have hapart := h.apart ha hb
    rw [hdr] at hapart h₂ hmem
    refine hmem i ?_
    rcases hapart with rfl | hapart <;> omega
  refine ⟨h.of_headers hheaders calls, ?_, ?_⟩
  · intro y hy
    obtain ⟨b, hb, heq⟩ := h.live_mem hy
    rw [heq, Nat.add_sub_cancel]
    exact hheaders.sizeAt hb
  · intro y hy hne i h₁ h₂
    obtain ⟨b, hb, heq⟩ := h.live_mem hy
    have hab : a ≠ b := by
      rintro rfl
      exact hne (heq.trans hxa.symm)
    rw [heq] at h₁ h₂
    rw [Nat.add_sub_cancel] at h₂
    have hapart := (h.apart ha hb).resolve_left hab
    exact hmem i (by omega)

lemma Held.obtain_pos (g : Held) (hp : p ≠ 0) : g.obtain p n = { live := (p, n) :: g.live, seen := p :: g.seen } :=
  if_neg hp

lemma calloc_spec (h : Inv k s g bs fs) (count size : ℕ) :
    ((calloc k count size s).1 = 0 ∧ (calloc k count size s).2.mem = s.mem ∧ Inv k (calloc k count size s).2 g bs fs) ∨
      (calloc k count size s).1 = s.brk + hdr ∧ (∀ x < s.brk, (calloc k count size s).2.mem x = s.mem x) ∧
        (∀ i < count * size, (calloc k count size s).2.mem (s.brk + hdr + i) = 0) ∧
        Inv k (calloc k count size s).2 (g.obtain (s.brk + hdr) (count * size)) (bs ++ [s.brk]) fs := by
  rw [calloc]
  split_ifs with hover
  · exact .inl ⟨rfl, rfl, h⟩
  have hlt : count * size < 2 ^ 64 := by
    rcases Nat.eq_zero_or_pos size with rfl | hpos
    · rw [Nat.mul_zero]
      norm_num
    · have hle : count ≤ (2 ^ 64 - 1) / size := by
        by_contra hgt
        exact hover ⟨hpos.ne', by omega⟩
      have := (Nat.le_div_iff_mul_le hpos).1 hle
      omega
  rw [Nat.mod_eq_of_lt hlt]
  dsimp only
  have hspec := malloc_spec h (count * size)
  generalize malloc k (count * size) s = r at hspec
  obtain ⟨q, t⟩ := r
  dsimp only at hspec
  obtain ⟨rfl, hmem, hinv⟩ | ⟨rfl, hn, hmem, hinv⟩ := hspec
  · exact .inl ⟨rfl, hmem, hinv⟩
  · rw [if_neg (show s.brk + hdr ≠ 0 by rw [hdr]; omega)]
    rw [g.obtain_pos (by rw [hdr]; omega)] at hinv ⊢
    have hsize := (hinv.live _ List.mem_cons_self).2
    refine .inr ⟨rfl, ?_, ?_, ?_⟩
    · intro x hx
      have hout : ¬ (s.brk + hdr ≤ x ∧ x < s.brk + hdr + count * size) := by omega
      exact (Bytes.fill_of_not_mem hout).trans (hmem x hx)
    · intro i hi
      exact Bytes.fill_of_mem (by omega)
    · exact (hinv.payload List.mem_cons_self (fun i hi => Bytes.fill_of_not_mem (fun hin => hi ⟨hin.1, by
        dsimp only at hsize ⊢
        omega⟩)) t.calls).1

lemma Inv.resize (h : Inv k s g bs fs) {old : ℕ} (hx : (b + hdr, old) ∈ g.live) (hn : n ≤ sizeAt s.mem b) :
    Inv k s ((g.drop (b + hdr)).obtain (b + hdr) n) bs fs := by
  have hperm := perm_drop (List.nodup_append.1 h.nodup).1 hx
  have hin := h.live _ hx
  rw [Nat.add_sub_cancel] at hin
  rw [Held.obtain_pos _ (by rw [hdr]; omega)]
  exact
    { h with
      blocks := h.blocks.trans ((hperm.map Prod.fst).append_right _)
      live := by
        intro x hmem
        rcases List.mem_cons.1 hmem with rfl | hmem
        · rw [Nat.add_sub_cancel]
          exact ⟨hin.1, hn⟩
        · exact h.live x (List.mem_filter.1 hmem).1
      seen := by
        intro p hp
        rcases List.mem_cons.1 hp with rfl | hp
        · obtain ⟨b', hb, heq⟩ := h.live_mem hx
          exact ⟨b', hb, heq⟩
        · exact h.seen p hp
      usedBytes := by
        rw [h.usedBytes, (hperm.map fun x => sizeAt s.mem (x.1 - hdr)).sum_eq]
        rfl
      usedBlocks := h.usedBlocks.trans hperm.length_eq }

lemma Keeps.subset {live live' : List (ℕ × ℕ)} (h : Keeps mem mem' live) (hsub : ∀ x ∈ live', x ∈ live) :
    Keeps mem mem' live' := fun x hx => h x (hsub x hx)

lemma Inv.keeps_below (h : Inv k s g bs fs) (hmem : ∀ x < s.brk, mem x = s.mem x) : Keeps s.mem mem g.live :=
  (h.below hmem s.calls).2

lemma mem_drop {x : ℕ × ℕ} : x ∈ (g.drop p).live ↔ x ∈ g.live ∧ x.1 ≠ p := by
  rw [Held.drop, List.mem_filter, decide_eq_true_iff]

lemma drop_obtain {q : ℕ} (hq : q ≠ p) : (g.obtain q n).drop p = (g.drop p).obtain q n := by
  rw [Held.obtain, Held.obtain]
  split_ifs
  · rfl
  · have hfilter : ((q, n) :: g.live).filter (fun x => x.1 ≠ p) = (q, n) :: g.live.filter fun x => x.1 ≠ p :=
      List.filter_cons_of_pos (decide_eq_true hq)
    rw [Held.drop, Held.drop, hfilter]

lemma realloc_spec (h : Inv k s g bs fs) {old : ℕ} (hx : (b + hdr, old) ∈ g.live) (hn : n ≠ 0) :
    ∃ r s' bs' fs', realloc k (b + hdr) n s = .returns r s' ∧ Inv k s' (g.after (.realloc (b + hdr) n) r) bs' fs' ∧
      Keeps s.mem s'.mem (g.drop (b + hdr)).live ∧ (r = 0 → Keeps s.mem s'.mem g.live) ∧
      (r ≠ 0 → ∀ i, i < n → i < sizeAt s.mem b → s'.mem (r + i) = s.mem (b + hdr + i)) := by
  have hused := (h.live _ hx).1
  rw [Nat.add_sub_cancel] at hused
  have hb0 : b + hdr ≠ 0 := by rw [hdr]; omega
  have hrefl : ∀ live, Keeps s.mem s.mem live := fun _ _ _ => ⟨rfl, fun _ _ _ => rfl⟩
  rw [realloc, if_neg hb0, if_neg hn]
  dsimp only
  rw [Nat.add_sub_cancel, if_neg (not_not.2 hused)]
  by_cases hle : n ≤ sizeAt s.mem b
  · rw [if_pos hle]
    refine ⟨b + hdr, s, bs, fs, rfl, ?_, hrefl _, fun h0 => absurd h0 hb0, fun _ _ _ _ => rfl⟩
    rw [Held.after, if_neg hb0, if_neg hn, if_neg hb0]
    exact h.resize hx hle
  rw [if_neg hle]
  have hspec := malloc_spec h n
  generalize malloc k n s = r at hspec
  obtain ⟨q, t⟩ := r
  dsimp only at hspec
  obtain ⟨rfl, hmem, hinv⟩ | ⟨rfl, -, hmem, hinv⟩ := hspec
  · refine ⟨0, t, bs, fs, rfl, ?_, ?_, ?_, fun h0 => absurd rfl h0⟩
    · rw [Held.after, if_neg hb0, if_neg hn, if_pos rfl]
      exact hinv
    · rw [hmem]
      exact hrefl _
    · rw [hmem]
      exact fun _ => hrefl _
  have hq0 : s.brk + hdr ≠ 0 := by rw [hdr]; omega
  have hold := h.keeps_below hmem
  obtain ⟨c, hb, hc⟩ := h.live_mem hx
  obtain rfl : b = c := Nat.add_right_cancel hc
  have hbounds := (h.bounds hb).2
  have hqb : s.brk + hdr ≠ b + hdr := by rw [hdr] at hbounds ⊢; omega
  -- the copy goes into the new block
  have hnew := hinv
  rw [Held.obtain_pos _ hq0] at hnew
  have hlarge := (hnew.live _ List.mem_cons_self).2
  have hsize := (hold _ hx).1
  rw [Nat.add_sub_cancel] at hsize
  have hlen : (Bytes.load t.mem (b + hdr) (sizeAt t.mem b)).length = sizeAt s.mem b := by
    rw [Bytes.length_load, hsize]
  have hout : ∀ i, ¬ (s.brk + hdr ≤ i ∧ i < s.brk + hdr + sizeAt t.mem (s.brk + hdr - hdr)) →
      Bytes.store t.mem (s.brk + hdr) (Bytes.load t.mem (b + hdr) (sizeAt t.mem b)) i = t.mem i := by
    intro i hi
    refine Bytes.store_of_not_mem fun hin => hi ⟨hin.1, ?_⟩
    rw [hlen] at hin
    dsimp only at hlarge
    omega
  obtain ⟨hcopy, hsizes, hothers⟩ := hnew.payload List.mem_cons_self hout t.calls
  obtain ⟨s', hfree, hinv', hkeeps⟩ := free_spec hcopy (List.mem_cons_of_mem _ hx)
  rw [← Held.obtain_pos _ hq0, drop_obtain hqb] at hinv' hkeeps
  rw [Held.obtain_pos _ hq0] at hkeeps
  refine ⟨s.brk + hdr, s', bs ++ [s.brk], b :: fs, ?_, ?_, ?_, fun h0 => absurd h0 hq0, ?_⟩
  · rw [if_neg hq0, hfree]
  · rw [Held.after, if_neg hb0, if_neg hn, if_neg hq0]
    exact hinv'
  · refine (hold.subset fun x hx => (mem_drop.1 hx).1).trans (Keeps.trans ?_ (hkeeps.subset fun x => List.mem_cons_of_mem _))
    intro x hmemx
    obtain ⟨hlive, -⟩ := mem_drop.1 hmemx
    refine ⟨hsizes x (List.mem_cons_of_mem _ hlive), hothers x (List.mem_cons_of_mem _ hlive) ?_⟩
    obtain ⟨c, hcs, hxc⟩ := h.live_mem hlive
    have := (h.bounds hcs).2
    rw [hdr] at this hxc ⊢
    dsimp only
    omega
  · intro _ i hi hib
    have hfirst := (hkeeps _ List.mem_cons_self).2 (s.brk + hdr + i) (by dsimp only; omega) (by
      have := hsizes _ List.mem_cons_self
      dsimp only at this hlarge ⊢
      omega)
    have hstored : Bytes.store t.mem (s.brk + hdr) (Bytes.load t.mem (b + hdr) (sizeAt t.mem b)) (s.brk + hdr + i) =
        t.mem (b + hdr + i) := by
      rw [Bytes.store, if_pos (by omega), Nat.add_sub_cancel_left, Bytes.load, List.getD_eq_getElem _ _ (by
        rw [List.length_map, List.length_range]
        omega), List.getElem_map, List.getElem_range]
    have hkept := (hold _ hx).2 (b + hdr + i) (Nat.le_add_right _ _) (by
      dsimp only
      rw [Nat.add_sub_cancel]
      omega)
    exact hfirst.trans (hstored.trans hkept)

structure Sound (k : Kernel) (s : Heap) (g : Held) : Prop where
  aligned : ∀ x ∈ g.live, 16 ∣ x.1
  large : ∀ x ∈ g.live, x.2 ≤ sizeAt s.mem (x.1 - hdr)
  disjoint : g.live.Pairwise fun x y =>
    x.1 + sizeAt s.mem (x.1 - hdr) ≤ y.1 ∨ y.1 + sizeAt s.mem (y.1 - hdr) ≤ x.1
  inside : ∀ x ∈ g.live, k.base + hdr ≤ x.1 ∧ x.1 + sizeAt s.mem (x.1 - hdr) ≤ s.brk
  tiles : ∃ bs fs, Tiles (extent s.mem) k.base bs s.brk ∧ FreeChain s.mem s.freeList fs ∧
    (bs.map (· + hdr)).Perm (g.live.map Prod.fst ++ fs.map (· + hdr))
  stats : ∃ t, mallocGetStats s = some t ∧ t.heapBytes = t.usedBytes + t.freeBytes + 16 * (t.usedBlocks + t.freeBlocks) ∧
    k.base + t.heapBytes = s.brk ∧ t.usedBlocks = g.live.length ∧
    t.usedBytes = (g.live.map fun x => sizeAt s.mem (x.1 - hdr)).sum

lemma Inv.sound (h : Inv k s g bs fs) : Sound k s g where
  aligned x hx := by
    obtain ⟨b, hb, heq⟩ := h.live_mem hx
    rw [heq]
    have hbase : 16 ∣ k.base := Dvd.dvd.trans (by decide) k.aligned
    exact dvd_add (h.tiles.dvd hbase (fun c hc => dvd_add (by decide) (h.sizes c hc)) hb) (by decide)
  large x hx := (h.live x hx).2
  disjoint := by
    have hnodup := (List.nodup_append.1 h.nodup).1
    refine (List.pairwise_map.1 hnodup).imp_of_mem fun {x y} hx hy hne => ?_
    obtain ⟨a, ha, hxa⟩ := h.live_mem hx
    obtain ⟨b, hb, hyb⟩ := h.live_mem hy
    have hapart := h.apart ha hb
    rw [hxa, hyb] at hne ⊢
    rw [Nat.add_sub_cancel, Nat.add_sub_cancel]
    have hab : a ≠ b := fun hab => hne (congrArg (· + hdr) hab)
    omega
  inside x hx := by
    obtain ⟨b, hb, heq⟩ := h.live_mem hx
    have := h.bounds hb
    rw [heq, Nat.add_sub_cancel]
    omega
  tiles := ⟨bs, fs, h.tiles, h.chain, h.blocks⟩
  stats := by
    have hlen := h.length_free
    refine ⟨_, congrArg (Option.map _) (h.chain.totals (by omega)), ?_, h.heapBytes, h.usedBlocks, h.usedBytes⟩
    have hsum := h.tiles.sum
    have hheap := h.heapBytes
    have hsizes : (bs.map (extent s.mem)).sum =
        (g.live.map fun x => extent s.mem (x.1 - hdr)).sum + (fs.map (extent s.mem)).sum := by
      have hperm := (h.blocks.map fun p => extent s.mem (p - hdr)).sum_eq
      simpa only [List.map_append, List.map_map, List.sum_append, Function.comp_def, Nat.add_sub_cancel] using hperm
    have hextent : ∀ {α : Type} (l : List α) (f : α → ℕ),
        (l.map fun a => extent s.mem (f a)).sum = 16 * l.length + (l.map fun a => sizeAt s.mem (f a)).sum := by
      intro α l f
      simp only [extent, List.sum_map_add, List.map_const', List.sum_replicate, smul_eq_mul, hdr, Nat.mul_comm]
    have hfs : (fs.map (extent s.mem)).sum = 16 * fs.length + (fs.map (sizeAt s.mem)).sum := hextent fs id
    rw [hextent g.live fun x => x.1 - hdr, ← h.usedBytes, ← h.usedBlocks] at hsizes
    dsimp only
    omega

/-- The call gives back a block that the program does not hold, such as one that was given back before. -/
def Stale (g : Held) : Call → Prop
  | .free p | .realloc p _ => p ≠ 0 ∧ p ∉ g.live.map Prod.fst
  | _ => False

def Serves (s : Heap) (g : Held) : Call → ℕ → Heap → Prop
  | .malloc _, _, t => Keeps s.mem t.mem g.live
  | .calloc count size, r, t => Keeps s.mem t.mem g.live ∧ (r ≠ 0 → ∀ i < count * size, t.mem (r + i) = 0)
  | .free p, _, t => Keeps s.mem t.mem (g.drop p).live
  | .realloc p n, r, t => Keeps s.mem t.mem (g.drop p).live ∧ (n ≠ 0 → r = 0 → Keeps s.mem t.mem g.live) ∧
      (r ≠ 0 → ∀ old, (p, old) ∈ g.live → ∀ i < min old n, t.mem (r + i) = s.mem (p + i))
  | .write .., _, _ => True

lemma Inv.not_stale (h : Inv k s g bs fs) (hp : p = 0 ∨ p ∈ g.seen) :
    p = 0 ∨ (∃ b n, p = b + hdr ∧ (b + hdr, n) ∈ g.live) ∨ ∃ b ∈ fs, p = b + hdr ∧ p ∉ g.live.map Prod.fst := by
  rcases hp with rfl | hp
  · exact .inl rfl
  rcases h.mem_live hp with ⟨n, hn⟩ | ⟨b, hb, rfl⟩
  · obtain ⟨b, -, heq⟩ := h.live_mem hn
    dsimp only at heq
    subst heq
    exact .inr (.inl ⟨b, n, rfl, hn⟩)
  · refine .inr (.inr ⟨b, hb, rfl, fun hmem => ?_⟩)
    obtain ⟨x, hx, heq⟩ := List.mem_map.1 hmem
    exact h.live_notMem_free hx heq hb

lemma Inv.step (h : Inv k s g bs fs) (c : Call) (hc : Allowed s g c) : c.exec k s = .aborts ∧ Stale g c ∨
    ∃ r t bs' fs', c.exec k s = .returns r t ∧ ¬ Stale g c ∧ Inv k t (g.after c r) bs' fs' ∧ Serves s g c r t := by
  have hrefl : ∀ live, Keeps s.mem s.mem live := fun _ _ _ => ⟨rfl, fun _ _ _ => rfl⟩
  have hmalloc : ∀ n, ∃ bs' fs', Inv k (malloc k n s).2 (g.obtain (malloc k n s).1 n) bs' fs' ∧
      Keeps s.mem (malloc k n s).2.mem g.live := by
    intro n
    obtain ⟨h0, hmem, hinv⟩ | ⟨hp, -, hmem, hinv⟩ := malloc_spec h n
    · rw [h0, hmem]
      exact ⟨bs, fs, hinv, hrefl _⟩
    · rw [hp]
      exact ⟨_, _, hinv, h.keeps_below hmem⟩
  have hdrop0 : g.drop 0 = g := by
    have hall : g.live.filter (fun x => x.1 ≠ 0) = g.live := by
      refine List.filter_eq_self.2 fun x hx => decide_eq_true ?_
      obtain ⟨b, -, heq⟩ := h.live_mem hx
      rw [heq, hdr]
      omega
    rw [Held.drop, hall]
  cases c with
  | malloc n =>
    obtain ⟨bs', fs', hinv, hkeeps⟩ := hmalloc n
    exact .inr ⟨(malloc k n s).1, (malloc k n s).2, bs', fs', rfl, id, hinv, hkeeps⟩
  | calloc count size =>
    obtain ⟨h0, hmem, hinv⟩ | ⟨hp, hmem, hzero, hinv⟩ := calloc_spec h count size
    · refine .inr ⟨(calloc k count size s).1, (calloc k count size s).2, bs, fs, rfl, id, ?_, ?_, fun hne => absurd h0 hne⟩
      · rw [Held.after, h0]
        exact hinv
      · rw [hmem]
        exact hrefl _
    · refine .inr ⟨(calloc k count size s).1, (calloc k count size s).2, bs ++ [s.brk], fs, rfl, id, ?_, h.keeps_below hmem, fun _ => ?_⟩
      · rw [Held.after, hp]
        exact hinv
      · rw [hp]
        exact hzero
  | free p =>
    obtain rfl | ⟨b, n, rfl, hx⟩ | ⟨b, hb, rfl, hstale⟩ := h.not_stale hc
    · refine .inr ⟨0, s, bs, fs, rfl, fun hs => hs.1 rfl, ?_, hrefl _⟩
      rw [Held.after, hdrop0]
      exact h
    · obtain ⟨t, heq, hinv, hkeeps⟩ := free_spec h hx
      exact .inr ⟨0, t, _, _, heq, fun hs => hs.2 (List.mem_map_of_mem (f := Prod.fst) hx), hinv, hkeeps⟩
    · exact .inl ⟨free_aborts h hb, by rw [hdr]; omega, hstale⟩
  | realloc p n =>
    obtain rfl | ⟨b, old, rfl, hx⟩ | ⟨b, hb, rfl, hstale⟩ := h.not_stale hc
    · obtain ⟨bs', fs', hinv, hkeeps⟩ := hmalloc n
      refine .inr ⟨(malloc k n s).1, (malloc k n s).2, bs', fs', rfl, fun hs => hs.1 rfl, hinv, ?_, fun _ _ => hkeeps, ?_⟩
      · rw [hdrop0]
        exact hkeeps
      · intro _ old hold
        obtain ⟨b, -, heq⟩ := h.live_mem hold
        exact absurd heq (by rw [hdr]; omega)
    · have hlive : ¬ Stale g (.realloc (b + hdr) n) := fun hs => hs.2 (List.mem_map_of_mem (f := Prod.fst) hx)
      by_cases hn : n = 0
      · obtain ⟨t, heq, hinv, hkeeps⟩ := free_spec h hx
        refine .inr ⟨0, t, bs, b :: fs, ?_, hlive, ?_, hkeeps, fun h0 => absurd hn h0, fun h0 => absurd rfl h0⟩
        · rw [Call.exec, realloc, if_neg (by rw [hdr]; omega), if_pos hn]
          exact heq
        · rw [Held.after, if_neg (by rw [hdr]; omega), if_pos hn]
          exact hinv
      · obtain ⟨r, t, bs', fs', heq, hinv, hkeeps, hfail, hcopy⟩ := realloc_spec h hx hn
        refine .inr ⟨r, t, bs', fs', heq, hlive, hinv, hkeeps, fun _ => hfail, ?_⟩
        intro hr old' hold i hi
        have hlarge := (h.live _ hold).2
        rw [Nat.add_sub_cancel] at hlarge
        exact hcopy hr i (by omega) (by omega)
    · refine .inl ⟨?_, by rw [hdr]; omega, hstale⟩
      rw [Call.exec, realloc, if_neg (by rw [hdr]; omega)]
      split_ifs
      · exact free_aborts h hb
      · dsimp only
        rw [Nat.add_sub_cancel, if_pos (h.next_ne hb)]
  | write a l =>
    obtain ⟨x, hx, h₁, h₂⟩ := hc
    have hout : ∀ i, ¬ (x.1 ≤ i ∧ i < x.1 + sizeAt s.mem (x.1 - hdr)) → Bytes.store s.mem a l i = s.mem i :=
      fun i hi => Bytes.store_of_not_mem fun hin => hi (by omega)
    exact .inr ⟨0, _, bs, fs, rfl, id, (h.payload hx hout s.calls).1, trivial⟩

lemma inv_reachable {z : Heap × Held} (h : (program k).Reachable z) : ∃ bs fs, Inv k z.1 z.2 bs fs := by
  refine h.invariant (I := fun z => ∃ bs fs, Inv k z.1 z.2 bs fs) ?_ ?_
  · rintro ⟨s, g⟩ ⟨⟨mem, rfl⟩, rfl⟩
    exact ⟨[], [],
      { tiles := rfl
        high := k.high
        sizes := fun b hb => absurd hb List.not_mem_nil
        blocks := .nil
        chain := rfl
        live := fun x hx => absurd hx List.not_mem_nil
        seen := fun p hp => absurd hp List.not_mem_nil
        heapBytes := rfl
        usedBytes := rfl
        usedBlocks := rfl }⟩
  · rintro ⟨s, g⟩ c ⟨t, g'⟩ ⟨bs, fs, hinv⟩ ⟨hc, r, heq, hg⟩
    dsimp only at hinv hc heq hg ⊢
    obtain ⟨habort, -⟩ | ⟨r', t', bs', fs', heq', -, hinv', -⟩ := hinv.step c hc
    · rw [habort] at heq
      cases heq
    · rw [heq'] at heq
      cases heq
      rw [hg]
      exact ⟨bs', fs', hinv'⟩

theorem heap_sound {s : Heap} {g : Held} (h : (program k).Reachable (s, g)) : Sound k s g ∧ ∀ c, Allowed s g c →
    c.exec k s = .aborts ∧ Stale g c ∨ ∃ r t, c.exec k s = .returns r t ∧ ¬ Stale g c ∧ Serves s g c r t := by
  obtain ⟨bs, fs, hinv⟩ := inv_reachable h
  refine ⟨hinv.sound, fun c hc => ?_⟩
  obtain habort | ⟨r, t, bs', fs', heq, hlive, -, hserves⟩ := hinv.step c hc
  · exact .inl habort
  · exact .inr ⟨r, t, heq, hlive, hserves⟩

def lowKernel : Kernel where
  base := 4096
  aligned := by decide
  pos := by decide
  high := by decide
  answer _ := some fun _ => 0

instance (s : Heap) (g : Held) : DecidablePred (Allowed s g)
  | .malloc _ | .calloc .. => isTrue trivial
  | .realloc p _ | .free p => inferInstanceAs (Decidable (p = 0 ∨ p ∈ g.seen))
  | .write a l => inferInstanceAs (Decidable (∃ x ∈ g.live, x.1 ≤ a ∧ a + l.length ≤ x.1 + sizeAt s.mem (x.1 - hdr)))

def next (x : Heap × Held) (c : Call) : Option (Heap × Held) :=
  match c.exec lowKernel x.1 with
  | .returns r s => if Allowed x.1 x.2 c then some (s, x.2.after c r) else none
  | _ => none

/-- The first block is moved behind the second one, and both its old place and the second one are free then. -/
def mixed : List Call := [.malloc 5, .calloc 2 8, .write 4112 [7], .realloc 4112 40, .free 4144]

lemma next_step {x y : Heap × Held} {c : Call} (h : next x c = some y) : (program lowKernel).step x c y := by
  rw [next] at h
  split at h
  · rename_i hr
    split at h
    · rename_i hc
      cases h
      exact ⟨hc, _, hr, rfl⟩
    · cases h
  · cases h

theorem heap_sound_mixed : ∃ s g, g.live = [(4176, 40)] ∧ g.seen = [4176, 4144, 4112] ∧ s.freeList = 4128 ∧
    Sound lowKernel s g := by
  have hrun : ((mixed.foldlM next ({ mem := fun _ => 1, brk := 4096 }, {})).map fun x =>
      (x.2.live, x.2.seen, x.1.freeList)) = some ([(4176, 40)], [4176, 4144, 4112], 4128) := by decide +kernel
  obtain ⟨⟨s, g⟩, hx, hs⟩ := Option.map_eq_some_iff.1 hrun
  obtain ⟨hl, hseen, hf⟩ := by simpa only [Prod.mk.injEq] using hs
  exact ⟨s, g, hl, hseen, hf, (heap_sound (.foldlM next_step (.init ⟨⟨_, rfl⟩, rfl⟩) hx)).1⟩

end MyOS.User.Malloc
