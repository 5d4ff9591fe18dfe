import MyOS.Memory.BuddyRuns
import MyOS.Memory.Memblock

/-! Every run of the boot allocator: the free regions are disjoint usable RAM, and every page goes to
the buddy allocator once. -/

namespace MyOS.Memory

open Boot Library Library.Dyadic

namespace Memblock

section HandOver

open Pmm

def freeRangeBlocks : ℕ → Pmm → ℕ → ℕ → List Block
  | 0, _, _, _ => []
  | n + 1, s, start, stop =>
    if start < stop then
      ⟨start, fitOrder start (min stop (s.zone (pfnZone start)).endPfn) (maxOrder - 1)⟩ ::
        freeRangeBlocks n (s.freeRangeStep start stop).1 (s.freeRangeStep start stop).2 stop
    else []

def handedBlocks : Pmm → List Region → List Block
  | _, [] => []
  | s, r :: rs =>
    let start := r.base / pageSize
    let stop := r.stop / pageSize
    freeRangeBlocks (stop - start) s start stop ++ handedBlocks (s.freeRange start stop) rs

variable {s : Pmm} {live : List Block} {start stop q : ℕ} {rs : List Region}

lemma coverage_freeRangeBlocks (n : ℕ) (h : Good s live) (hn : stop ≤ start + n)
    (hram : stop ≤ s.maxPfn) (hres : ∀ q, start ≤ q → q < stop → (s.page q).reserved = true) :
    coverage (freeRangeBlocks n s start stop) q = if start ≤ q ∧ q < stop then 1 else 0 := by
  induction n generalizing s start with
  | zero =>
    rw [freeRangeBlocks, if_neg (by omega)]
    rfl
  | succ n ih =>
    rw [freeRangeBlocks]
    split
    · rename_i hlt
      obtain ⟨hadv, hle, hc⟩ := freeRangeStep_carved h hlt hram hres
      have hleft : stop ≤ (s.freeRangeStep start stop).2 + n := by omega
      have hrest := ih hc.good hleft (by rwa [hc.maxPfn]) fun q h₁ h₂ => by
        have : ¬ q < (s.freeRangeStep start stop).2 := by omega
        simp [hc.reserved, hres q (by omega) h₂, this]
      have hnext : (s.freeRangeStep start stop).2 = start +
          2 ^ fitOrder start (min stop (s.zone (pfnZone start)).endPfn) (maxOrder - 1) := rfl
      rw [coverage_cons, hrest]
      simp only [Block.Contains, ← hnext]
      split_ifs <;> omega
    · rw [if_neg (by omega)]
      rfl

lemma coverage_handedBlocks_le (h : Good s []) (hd : rs.Pairwise Region.Disjoint)
    (hram : ∀ r ∈ rs, r.stop / pageSize ≤ s.maxPfn)
    (hres : ∀ r ∈ rs, ∀ q, r.base / pageSize ≤ q → q < r.stop / pageSize →
      (s.page q).reserved = true) :
    coverage (handedBlocks s rs) q ≤ sharing rs (q * pageSize + (pageSize - 1)) := by
  induction rs generalizing s with
  | nil => exact Nat.zero_le _
  | cons r rs ih =>
    obtain ⟨hfar, hrest⟩ := List.pairwise_cons.1 hd
    have hc := freeRange_carved h (hram r List.mem_cons_self) (hres r List.mem_cons_self)
    have hle := ih hc.good hrest
      (fun r' h' => hc.maxPfn ▸ hram r' (List.mem_cons_of_mem _ h'))
      (hc.reserved_rest hfar fun r' h' => hres r' (List.mem_cons_of_mem _ h'))
    have hfirst := coverage_freeRangeBlocks (q := q) (r.stop / pageSize - r.base / pageSize) h
      (by omega) (hram r List.mem_cons_self) (hres r List.mem_cons_self)
    have hcons : sharing (r :: rs) (q * pageSize + (pageSize - 1)) =
        sharing rs (q * pageSize + (pageSize - 1)) +
          if r.Contains (q * pageSize + (pageSize - 1)) then 1 else 0 := by
      simp [sharing, List.countP_cons]
    have hpage : r.base / pageSize ≤ q ∧ q < r.stop / pageSize →
        r.Contains (q * pageSize + (pageSize - 1)) := by
      simp only [Region.Contains, pageSize]
      omega
    rw [handedBlocks, coverage_append, hcons, hfirst]
    by_cases hq : r.base / pageSize ≤ q ∧ q < r.stop / pageSize
    · rw [if_pos hq, if_pos (hpage hq)]
      omega
    · rw [if_neg hq]
      omega

end HandOver

structure BootCall where
  size : ℕ
  alignLog : ℕ
  limit : ℕ
  deriving DecidableEq

structure BootHeap where
  mb : Memblock
  blocks : List (BootCall × Region) := []

inductive BootStep : BootHeap → BootCall → BootHeap → Prop
  | alloc {s : BootHeap} {c : BootCall} {base : ℕ} {t : Memblock} (hsize : c.size < 2 ^ 64)
      (halign : pageShift ≤ c.alignLog ∧ c.alignLog < 64) (hlimit : c.limit < 2 ^ 64)
      (h : s.mb.memblockAlloc c.size (2 ^ c.alignLog) c.limit = some (base, t)) :
      BootStep s c ⟨t, (c, ⟨base, base + c.size⟩) :: s.blocks⟩

def bootAllocator (image : Region) (bi : BootInfo) (mem : ℕ → UInt8) : System BootHeap BootCall where
  init s := s = ⟨memblockInit image bi mem, []⟩
  step := BootStep

def RoundsUp (_ : BootHeap) (c : BootCall) : Prop := c.size + pageSize ≤ 2 ^ 64

structure MemblockSafe (image : Region) (bi : BootInfo) (s : BootHeap) : Prop where
  disjoint : s.mb.regions.Pairwise Region.Disjoint
  aligned : ∀ r ∈ s.mb.regions, r.Aligned
  usable : ∀ r ∈ s.mb.regions, ∀ a, r.Contains a → UsableRam bi a ∧
    (∀ r' ∈ reservedRanges image bi, ¬ r'.Contains a) ∧ ∀ b ∈ s.blocks, ¬ b.2.Contains a
  blocks : ∀ b ∈ s.blocks, 2 ^ b.1.alignLog ∣ b.2.base ∧ b.2.stop ≤ b.1.limit
  apart : s.blocks.Pairwise fun b b' => b.2.Disjoint b'.2
  handedOnce : ∀ t p, s.mb.pmmInit = some (t, p) → ∀ q,
    coverage (handedBlocks (Pmm.blank t.maxRam t.mem) t.regions) q ≤ 1

section Runs

variable {bi : BootInfo} {image : Region} {mem : ℕ → UInt8} {s t : BootHeap} {c : BootCall}

structure BootInv (image : Region) (bi : BootInfo) (s : BootHeap) : Prop where
  free : FreeRam image bi s.mb
  taken : ∀ b ∈ s.blocks, ∀ a, b.2.Contains a → sharing s.mb.regions a = 0
  blocks : ∀ b ∈ s.blocks, 2 ^ b.1.alignLog ∣ b.2.base ∧ b.2.stop ≤ b.1.limit
  apart : s.blocks.Pairwise fun b b' => b.2.Disjoint b'.2

lemma FreeRam.alloc {s t : Memblock} {base size align limit : ℕ} (h : FreeRam image bi s)
    (ha : Allocated s t base size align limit) : FreeRam image bi t where
  table := ha.table
  max := ha.maxRam ▸ h.max
  once a := (ha.le a).trans (h.once a)
  usable a hpos := h.usable a (hpos.trans_le (ha.le a))
  reserved a hpos := h.reserved a (hpos.trans_le (ha.le a))

lemma BootInv.step (h : BootInv image bi s) (hc : RoundsUp s c) (hs : BootStep s c t) :
    BootInv image bi t := by
  cases hs with
  | alloc hsize halign hlimit hr =>
    have ha := memblockAlloc_spec h.free.table h.free.max halign.2.le hlimit hc hr
    refine ⟨h.free.alloc ha, fun b hb a hin => ?_, fun b hb => ?_, .cons (fun b hb => ?_) h.apart⟩
    · rcases List.mem_cons.1 hb with rfl | hb
      · exact ha.gone a hin.1 hin.2
      · exact Nat.le_zero.1 ((ha.le a).trans (h.taken b hb a hin).le)
    · rcases List.mem_cons.1 hb with rfl | hb
      · exact ⟨ha.aligned, ha.within⟩
      · exact h.blocks b hb
    · intro a h₁ h₂ h₃
      by_contra h₄
      exact (ha.was a h₁ h₂).ne' (h.taken b hb a ⟨h₃, not_le.1 h₄⟩)

lemma BootInv.memblockSafe (h : BootInv image bi s) : MemblockSafe image bi s where
  disjoint := pairwise_disjoint h.free.once
  aligned := h.free.table.aligned
  usable r hr a ha := by
    have hpos := sharing_pos hr ha
    exact ⟨h.free.usable a hpos, h.free.reserved a hpos, fun b hb hin => hpos.ne' (h.taken b hb a hin)⟩
  blocks := h.blocks
  apart := h.apart
  handedOnce t p ht q := by
    obtain ⟨⟨base, u⟩, hu, hst⟩ := Option.map_eq_some_iff.1 ht
    cases hst
    have hmax := h.free.max
    have hmap : s.mb.maxRam / pageSize * sizeofPage + pageSize ≤ 2 ^ 64 := by
      simp only [pageSize, sizeofPage]
      omega
    rw [Nat.mod_eq_of_lt (by simp only [pageSize] at hmap ⊢; omega)] at hu
    have ha := memblockAlloc_spec (k := 12) h.free.table hmax (by decide) (by decide) hmap hu
    have hf := h.free.alloc ha
    refine (coverage_handedBlocks_le (Pmm.blank_good _ _) (pairwise_disjoint hf.once)
      (fun r hr => Nat.div_le_div_right (hf.table.below r hr)) fun _ _ _ _ _ => rfl).trans (hf.once _)

theorem reachable_memblockSafe {magic mbiPhys totalSize : UInt32} {tags : List Mb2Tag}
    (hbi : BootInfo.parse magic mbiPhys totalSize tags = some bi) (himage : Proper image)
    (hmap : MapSound image bi)
    (h : ((bootAllocator image bi mem).guarded RoundsUp).Reachable s) :
    MemblockSafe image bi s := by
  suffices BootInv image bi s from this.memblockSafe
  refine h.invariant ?_ fun s c t hs hst => hs.step hst.1 hst.2
  rintro s rfl
  exact ⟨freeRam_init (BootInfo.parse_bounded hbi) himage hmap, by simp, by simp, .nil⟩

def smallImage : Region := ⟨0x100000, 0x180000⟩

lemma smallImage_proper : Proper smallImage := .of_le (by decide) (by decide)

theorem reachable_memblockSafe_page :
    let bi : BootInfo := ⟨[⟨0x100000, 0x300000, .usable⟩, ⟨0x400000, 0x1000, .reserved⟩], [], 0x1000, 64⟩
    ∃ t, (memblockInit smallImage bi fun _ => 0).memblockAlloc 4096 4096 0x300000 = some (0x2ff000, t) ∧
      MemblockSafe smallImage bi ⟨t, [(⟨4096, 12, 0x300000⟩, ⟨0x2ff000, 0x300000⟩)]⟩ := by
  intro bi
  have hr : ((memblockInit smallImage bi fun _ => 0).memblockAlloc 4096 4096 0x300000).map Prod.fst =
      some 0x2ff000 := by decide +kernel
  obtain ⟨⟨base, t⟩, ht, rfl⟩ := Option.map_eq_some_iff.1 hr
  refine ⟨t, ht, ?_⟩
  have hranges : usableRanges bi = [⟨0x100000, 0x400000⟩] := by decide +kernel
  have hmap : MapSound smallImage bi := by
    refine ⟨fun m hm hu a ha hlt => ?_, ?_, fun r hr m hm hu a ha h₁ h₂ => ?_, by simp [bi]⟩
    · rcases List.mem_cons.1 hm with rfl | hm
      · exact absurd ha.1 (not_le.2 hlt)
      · obtain rfl := List.mem_singleton.1 hm
        cases hu
    · rw [hranges]
      exact .cons (by simp) .nil
    · rw [hranges] at hr
      obtain rfl := List.mem_singleton.1 hr
      rcases List.mem_cons.1 hm with rfl | hm
      · exact absurd rfl hu
      · obtain rfl := List.mem_singleton.1 hm
        exact absurd ha.2 (not_lt.2 h₁)
  have hbi : BootInfo.parse mb2BootloaderMagic 0x1000 64
      [.mmap [⟨0x100000, 0x300000, 1⟩, ⟨0x400000, 0x1000, 2⟩]] = some bi := by decide
  exact reachable_memblockSafe hbi smallImage_proper hmap (.step ⟨4096, 12, 0x300000⟩ (.init rfl)
    ⟨(by decide : 4096 + pageSize ≤ 2 ^ 64), .alloc (by decide) (by decide) (by decide) ht⟩)

theorem not_memblockSafe_overlap :
    (∃ bi, BootInfo.parse mb2BootloaderMagic 0x1000 64
        [.mmap [⟨0x200000, 0x200000, 1⟩, ⟨0x300000, 0x200000, 1⟩]] = some bi ∧
      ¬ ∀ s, (bootAllocator smallImage bi fun _ => 0).Reachable s → MemblockSafe smallImage bi s) ∧
    ∃ bi, BootInfo.parse mb2BootloaderMagic 0x1000 64
        [.mmap [⟨0x200000, 0x200000, 1⟩, ⟨0x300000, 0x1000, 2⟩]] = some bi ∧
      ¬ ∀ s, (bootAllocator smallImage bi fun _ => 0).Reachable s → MemblockSafe smallImage bi s := by
  refine ⟨⟨⟨[⟨0x200000, 0x200000, .usable⟩, ⟨0x300000, 0x200000, .usable⟩], [], 0x1000, 64⟩,
    by decide, fun h => ?_⟩, ⟨[⟨0x200000, 0x200000, .usable⟩, ⟨0x300000, 0x1000, .reserved⟩], [], 0x1000, 64⟩,
    by decide, fun h => ?_⟩
  · have hd := (h _ (.init rfl)).disjoint
    have hr : (memblockInit smallImage ⟨[⟨0x200000, 0x200000, .usable⟩,
        ⟨0x300000, 0x200000, .usable⟩], [], 0x1000, 64⟩ fun _ => 0).regions =
          [⟨0x200000, 0x400000⟩, ⟨0x300000, 0x500000⟩] := by decide +kernel
    rw [hr, List.pairwise_pair] at hd
    have := hd 0x300000 (by decide) (by decide) (by decide)
    simp at this
  · have hr : (memblockInit smallImage ⟨[⟨0x200000, 0x200000, .usable⟩,
        ⟨0x300000, 0x1000, .reserved⟩], [], 0x1000, 64⟩ fun _ => 0).regions =
          [⟨0x200000, 0x400000⟩] := by decide +kernel
    have hu := (h _ (.init rfl)).usable ⟨0x200000, 0x400000⟩ (by rw [hr]; simp) 0x300000 (by decide)
    exact hu.1.2 _ (List.mem_cons_of_mem _ List.mem_cons_self) (by decide) (by decide)

end Runs

end Memblock

end MyOS.Memory
