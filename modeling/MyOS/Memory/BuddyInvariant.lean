import MyOS.Library.Sums
import MyOS.Memory.Buddy

/-! The invariant of the free lists. Blocks that are on no list, either allocated or in
transit between two lists, are carried in a second list `held`. -/

namespace MyOS.Memory.Pmm

open Library.Dyadic Library.Sums

structure Layout (s : Pmm) : Prop where
  dmaStart : (s.zone .dma32).startPfn = 0
  dmaEnd : (s.zone .dma32).endPfn = min s.maxPfn pfn4G
  normalStart : (s.zone .normal).startPfn = pfn4G
  normalEnd : (s.zone .normal).endPfn = max s.maxPfn pfn4G

def InZone (s : Pmm) (z : ZoneId) (b : Block) : Prop :=
  (s.zone z).startPfn ≤ b.base ∧ b.base + 2 ^ b.order ≤ (s.zone z).endPfn

def Managed (s : Pmm) (q : ℕ) : Prop := q < s.maxPfn ∧ (s.page q).reserved = false

instance (s : Pmm) (q : ℕ) : Decidable (s.Managed q) := inferInstanceAs (Decidable (_ ∧ _))

structure Inv (s : Pmm) (held : List Block) : Prop where
  layout : s.Layout
  cover : ∀ q, coverage s.freeBlocks q + coverage held q = if s.Managed q then 1 else 0
  free : ∀ z o p, p ∈ s.list z o → o < maxOrder ∧ 2 ^ o ∣ p ∧ s.InZone z ⟨p, o⟩ ∧
    (s.page p).buddy = true ∧ (s.page p).order = o
  listed : ∀ p, (s.page p).buddy = true → p ∈ s.list (pfnZone p) (s.page p).order
  held : ∀ b ∈ held, b.order < maxOrder ∧ b.Aligned ∧ s.InZone (pfnZone b.base) b
  counts : ∀ z o, s.count z o = (s.list z o).length
  merged : ∀ z o p, o + 1 < maxOrder → p ∈ s.list z o → p ^^^ 2 ^ o ∉ s.list z o

def listedPages (s : Pmm) (z : ZoneId) : ℕ :=
  ((List.range maxOrder).map fun o => s.count z o * 2 ^ o).sum

structure Frame (s t : Pmm) : Prop where
  maxPfn : t.maxPfn = s.maxPfn
  mem : t.mem = s.mem
  zones : ∀ z, (t.zone z).startPfn = (s.zone z).startPfn ∧ (t.zone z).endPfn = (s.zone z).endPfn ∧
    (t.zone z).freePages = (s.zone z).freePages
  page : ∀ q, (t.page q).reserved = (s.page q).reserved ∧ (t.page q).head = (s.page q).head ∧
    (t.page q).slab = (s.page q).slab ∧ (t.page q).cache = (s.page q).cache ∧
    (t.page q).refcount = (s.page q).refcount ∧ (t.page q).mapcount = (s.page q).mapcount

lemma Frame.refl (s : Pmm) : Frame s s := ⟨rfl, rfl, by simp, by simp⟩

lemma Frame.trans {s t u : Pmm} (h : Frame s t) (k : Frame t u) : Frame s u where
  maxPfn := k.maxPfn.trans h.maxPfn
  mem := k.mem.trans h.mem
  zones z := by
    obtain ⟨h₁, h₂, h₃⟩ := h.zones z
    obtain ⟨k₁, k₂, k₃⟩ := k.zones z
    exact ⟨k₁.trans h₁, k₂.trans h₂, k₃.trans h₃⟩
  page q := by
    obtain ⟨h₁, h₂, h₃, h₄, h₅, h₆⟩ := h.page q
    obtain ⟨k₁, k₂, k₃, k₄, k₅, k₆⟩ := k.page q
    exact ⟨k₁.trans h₁, k₂.trans h₂, k₃.trans h₃, k₄.trans h₄, k₅.trans h₅, k₆.trans h₆⟩

lemma Frame.layout {s t : Pmm} (h : Frame s t) (hl : s.Layout) : t.Layout := by
  obtain ⟨a, b, c, d⟩ := hl
  refine ⟨?_, ?_, ?_, ?_⟩
  · rw [(h.zones _).1, a]
  · rw [(h.zones _).2.1, b, h.maxPfn]
  · rw [(h.zones _).1, c]
  · rw [(h.zones _).2.1, d, h.maxPfn]

lemma Frame.inZone {s t : Pmm} (h : Frame s t) (z : ZoneId) (b : Block) :
    t.InZone z b ↔ s.InZone z b := by
  rw [InZone, InZone, (h.zones z).1, (h.zones z).2.1]

lemma Frame.managed {s t : Pmm} (h : Frame s t) (q : ℕ) : t.Managed q ↔ s.Managed q := by
  rw [Managed, Managed, h.maxPfn, (h.page q).1]

lemma Layout.zone_eq {s : Pmm} (h : s.Layout) {z : ZoneId} {b : Block} (hb : s.InZone z b) :
    pfnZone b.base = z := by
  obtain ⟨hlo, hhi⟩ := hb
  have := Nat.two_pow_pos b.order
  cases z with
  | dma32 =>
    rw [h.dmaEnd] at hhi
    exact if_pos (by omega)
  | normal =>
    rw [h.normalStart] at hlo
    exact if_neg (by omega)

section Consequences

variable {s : Pmm} {held : List Block} (h : Inv s held)

include h

lemma Inv.cover_le (q : ℕ) : coverage s.freeBlocks q + coverage held q ≤ 1 := by
  rw [h.cover q]
  split <;> omega

lemma Inv.listed_block {z : ZoneId} {o p : ℕ} (hp : p ∈ s.list z o) : ⟨p, o⟩ ∈ s.freeBlocks :=
  mem_freeBlocks.2 ⟨(h.free z o p hp).1, z, hp⟩

lemma Inv.not_listed {q : ℕ} (hq : 0 < coverage held q) (z : ZoneId) (o : ℕ) :
    q ∉ s.list z o := by
  intro hm
  have hc : (Block.mk q o).Contains q := Block.contains_base ⟨q, o⟩
  have := coverage_pos_of_mem (h.listed_block hm) hc
  have := h.cover_le q
  omega

lemma Inv.not_buddy {q : ℕ} (hq : 0 < coverage held q) : (s.page q).buddy = false := by
  by_contra hb
  exact h.not_listed hq _ _ (h.listed q (by simpa using hb))

lemma Inv.slot_unique {z y : ZoneId} {o i p : ℕ} (hp : p ∈ s.list z o) (hq : p ∈ s.list y i) :
    y = z ∧ i = o := by
  obtain ⟨_, _, hz, _, ho⟩ := h.free z o p hp
  obtain ⟨_, _, hy, _, hi⟩ := h.free y i p hq
  have hpz : pfnZone p = z := h.layout.zone_eq hz
  have hpy : pfnZone p = y := h.layout.zone_eq hy
  exact ⟨hpy.symm.trans hpz, hi.symm.trans ho⟩

lemma Inv.list_nodup (z : ZoneId) (o : ℕ) : (s.list z o).Nodup := by
  rw [List.nodup_iff_count_le_one]
  intro p
  by_cases hp : p ∈ s.list z o
  · have ho := (h.free z o p hp).1
    have hle : (s.list z o).count p ≤
        (s.list z o).countP fun r => decide ((Block.mk r o).Contains p) :=
      List.countP_mono_left fun r _ hr => by
        obtain rfl : r = p := by simpa using hr
        exact decide_eq_true (Block.contains_base ⟨r, o⟩)
    have hsum := single_le_sum (mem_slots.2 ho : (z, o) ∈ slots)
      (fun i => (s.list i.1 i.2).countP fun r => decide ((Block.mk r i.2).Contains p))
    have := h.cover_le p
    rw [coverage_freeBlocks] at this
    simp only at hsum
    omega
  · rw [List.count_eq_zero_of_not_mem hp]
    omega

end Consequences

section Updates

variable {s : Pmm} {z : ZoneId} {p o : ℕ}

lemma addFree_frame : Frame s (s.addFree z p o) where
  maxPfn := rfl
  mem := rfl
  zones y := by
    obtain ⟨h₁, h₂, h₃⟩ := setArea_zone_fields
      (s.setPage p fun g => { g with buddy := true, order := o }) z y o
      (fun a => { list := p :: a.list, count := a.count + 1 })
    exact ⟨h₁, h₂, h₃⟩
  page q := by
    by_cases hq : q = p
    · subst hq; simp [addFree]
    · simp [addFree, hq]

lemma delFree_frame : Frame s (s.delFree z p o) where
  maxPfn := rfl
  mem := rfl
  zones y := by
    obtain ⟨h₁, h₂, h₃⟩ := setArea_zone_fields
      ((s.listDel p).setPage p fun g => { g with buddy := false }) z y o
      (fun a => { a with count := a.count - 1 })
    exact ⟨h₁, h₂, h₃⟩
  page q := by
    by_cases hq : q = p
    · subst hq; simp [delFree]
    · simp [delFree, hq]

lemma addFree_list (y : ZoneId) (i : ℕ) :
    (s.addFree z p o).list y i = if y = z ∧ i = o then p :: s.list y i else s.list y i := by
  simp only [addFree, list, setArea_freeArea, setPage_zone]
  split <;> rfl

lemma addFree_count (y : ZoneId) (i : ℕ) :
    (s.addFree z p o).count y i = if y = z ∧ i = o then s.count y i + 1 else s.count y i := by
  simp only [addFree, count, setArea_freeArea, setPage_zone]
  split <;> rfl

lemma delFree_count (y : ZoneId) (i : ℕ) :
    (s.delFree z p o).count y i = if y = z ∧ i = o then s.count y i - 1 else s.count y i := by
  simp only [delFree, count, setArea_freeArea, setPage_zone]
  split <;> rfl

lemma delFree_list (y : ZoneId) (i : ℕ) :
    (s.delFree z p o).list y i = (s.list y i).erase p := by
  simp only [delFree, list, setArea_freeArea, setPage_zone]
  split <;> rfl

lemma addFree_page_ne {q : ℕ} (hq : q ≠ p) : (s.addFree z p o).page q = s.page q := by
  simp [addFree, hq]

lemma addFree_page_self :
    (s.addFree z p o).page p = { s.page p with buddy := true, order := o } := by
  simp [addFree]

lemma delFree_page_ne {q : ℕ} (hq : q ≠ p) : (s.delFree z p o).page q = s.page q := by
  simp [delFree, hq]

lemma delFree_page_self : (s.delFree z p o).page p = { s.page p with buddy := false } := by
  simp [delFree]

lemma addFree_coverage (ho : o < maxOrder) (q : ℕ) :
    coverage (s.addFree z p o).freeBlocks q =
      coverage s.freeBlocks q + if (Block.mk p o).Contains q then 1 else 0 := by
  have hup := sum_map_update slots_nodup (mem_slots.2 ho : (z, o) ∈ slots)
    (f := fun i => (s.list i.1 i.2).countP fun r => decide ((Block.mk r i.2).Contains q))
    (g := fun i => ((s.addFree z p o).list i.1 i.2).countP
      fun r => decide ((Block.mk r i.2).Contains q))
    (by
      rintro ⟨y, i⟩ - hne
      have : ¬ (y = z ∧ i = o) := fun hc => hne (by rw [hc.1, hc.2])
      simp only [addFree_list, if_neg this])
  rw [coverage_freeBlocks, coverage_freeBlocks]
  simp only [addFree_list, and_self, if_true, List.countP_cons, decide_eq_true_eq] at hup ⊢
  omega

lemma addFree_listedPages (ho : o < maxOrder) (y : ZoneId) :
    (s.addFree z p o).listedPages y = s.listedPages y + if y = z then 2 ^ o else 0 := by
  by_cases hy : y = z
  · subst hy
    have hup := sum_map_update List.nodup_range (List.mem_range.2 ho)
      (f := fun i => s.count y i * 2 ^ i) (g := fun i => (s.addFree y p o).count y i * 2 ^ i)
      (by intro i _ hi; simp only [addFree_count, hi, and_false, if_false])
    simp only [addFree_count, and_self, if_true, Nat.add_mul, one_mul] at hup
    simp only [listedPages, addFree_count, if_true]
    omega
  · simp [listedPages, addFree_count, hy]

lemma delFree_listedPages (ho : o < maxOrder) (hc : 0 < s.count z o) (y : ZoneId) :
    (s.delFree z p o).listedPages y + (if y = z then 2 ^ o else 0) = s.listedPages y := by
  by_cases hy : y = z
  · subst hy
    have hup := sum_map_update List.nodup_range (List.mem_range.2 ho)
      (f := fun i => s.count y i * 2 ^ i) (g := fun i => (s.delFree y p o).count y i * 2 ^ i)
      (by intro i _ hi; simp only [delFree_count, hi, and_false, if_false])
    obtain ⟨c, hcc⟩ := Nat.exists_eq_succ_of_ne_zero hc.ne'
    simp only [delFree_count, and_self, if_true, hcc, Nat.succ_eq_add_one, Nat.add_sub_cancel,
      Nat.add_mul, one_mul] at hup
    simp only [listedPages, delFree_count, if_true]
    omega
  · simp [listedPages, delFree_count, hy]

end Updates

section Steps

variable {s : Pmm} {z : ZoneId} {p o : ℕ} {held : List Block}

lemma Inv.head (h : Inv s (⟨p, o⟩ :: held)) :
    o < maxOrder ∧ 2 ^ o ∣ p ∧ s.InZone (pfnZone p) ⟨p, o⟩ :=
  h.held _ List.mem_cons_self

lemma coverage_head_pos (b : Block) (bs : List Block) : 0 < coverage (b :: bs) b.base :=
  coverage_pos_of_mem List.mem_cons_self b.contains_base

lemma Inv.addFree (h : Inv s (⟨p, o⟩ :: held)) (hz : z = pfnZone p)
    (hb : o + 1 < maxOrder → p ^^^ 2 ^ o ∉ s.list z o) : Inv (s.addFree z p o) held := by
  obtain ⟨ho, hal, hin⟩ := h.head
  have hfr : Frame s (s.addFree z p o) := addFree_frame
  have hnot : ∀ y i, p ∉ s.list y i := h.not_listed (coverage_head_pos ⟨p, o⟩ held)
  refine ⟨hfr.layout h.layout, ?_, ?_, ?_, ?_, ?_, ?_⟩
  · intro q
    have := h.cover q
    rw [coverage_cons] at this
    rw [addFree_coverage ho, if_congr (hfr.managed q) rfl rfl]
    omega
  · intro y i r hr
    rw [addFree_list] at hr
    by_cases hslot : y = z ∧ i = o ∧ r = p
    · obtain ⟨rfl, rfl, rfl⟩ := hslot
      rw [hfr.inZone, addFree_page_self]
      exact ⟨ho, hal, hz ▸ hin, rfl, rfl⟩
    · have hold : r ∈ s.list y i := by
        split at hr
        · rename_i hc
          exact (List.mem_cons.1 hr).resolve_left fun he => hslot ⟨hc.1, hc.2, he⟩
        · exact hr
      have hne : r ≠ p := by rintro rfl; exact hnot y i hold
      rw [hfr.inZone, addFree_page_ne hne]
      exact h.free y i r hold
  · intro r hr
    rw [addFree_list]
    by_cases hrp : r = p
    · subst hrp
      rw [addFree_page_self]
      simp [hz]
    · rw [addFree_page_ne hrp] at hr ⊢
      have := h.listed r hr
      split
      · exact List.mem_cons_of_mem _ this
      · exact this
  · intro b hb'
    obtain ⟨h₁, h₂, h₃⟩ := h.held b (List.mem_cons_of_mem _ hb')
    exact ⟨h₁, h₂, (hfr.inZone _ _).2 h₃⟩
  · intro y i
    rw [addFree_list, addFree_count, h.counts y i]
    split <;> rfl
  · -- only the new block can break maximal merging, and its buddy is not on the list
    intro y i r hi hr
    rw [addFree_list] at hr ⊢
    split at hr
    · rename_i hc
      obtain ⟨rfl, rfl⟩ := hc
      rw [if_pos ⟨rfl, rfl⟩]
      have hself : ∀ x, x ^^^ 2 ^ i ≠ x := fun x hx => by
        have := congrArg (· ^^^ x) hx
        simp only [Nat.xor_self, Nat.xor_comm x (2 ^ i), xor_cancel] at this
        exact (Nat.two_pow_pos i).ne' this
      intro hm
      rcases List.mem_cons.1 hr with rfl | hr
      · rcases List.mem_cons.1 hm with hm | hm
        · exact hself _ hm
        · exact hb hi hm
      · rcases List.mem_cons.1 hm with hm | hm
        · exact hb hi (by rwa [← hm, xor_cancel])
        · exact h.merged _ _ r hi hr hm
    · rename_i hc
      rw [if_neg hc]
      exact h.merged y i r hi hr

lemma Inv.delFree_list (h : Inv s held) (hp : p ∈ s.list z o) (y : ZoneId) (i : ℕ) :
    (s.delFree z p o).list y i =
      if y = z ∧ i = o then (s.list y i).erase p else s.list y i := by
  rw [Pmm.delFree_list]
  split
  · rfl
  · rename_i hc
    exact List.erase_of_not_mem fun hq => hc (h.slot_unique hp hq)

lemma Inv.mem_delFree (h : Inv s held) {y : ZoneId} {i r : ℕ} :
    r ∈ (s.delFree z p o).list y i ↔ r ∈ s.list y i ∧ r ≠ p := by
  rw [Pmm.delFree_list, (h.list_nodup y i).mem_erase_iff, and_comm]

lemma Inv.delFree_coverage (h : Inv s held) (hp : p ∈ s.list z o) (q : ℕ) :
    coverage (s.delFree z p o).freeBlocks q + (if (Block.mk p o).Contains q then 1 else 0) =
      coverage s.freeBlocks q := by
  have ho := (h.free z o p hp).1
  have hup := sum_map_update slots_nodup (mem_slots.2 ho : (z, o) ∈ slots)
    (f := fun i => (s.list i.1 i.2).countP fun r => decide ((Block.mk r i.2).Contains q))
    (g := fun i => ((s.delFree z p o).list i.1 i.2).countP
      fun r => decide ((Block.mk r i.2).Contains q))
    (by
      rintro ⟨y, i⟩ - hne
      have : ¬ (y = z ∧ i = o) := fun hc => hne (by rw [hc.1, hc.2])
      simp only [h.delFree_list hp, if_neg this])
  have herase := (List.perm_cons_erase hp).countP_eq fun r => decide ((Block.mk r o).Contains q)
  rw [coverage_freeBlocks, coverage_freeBlocks]
  simp only [h.delFree_list hp, and_self, if_true, List.countP_cons, decide_eq_true_eq]
    at hup herase ⊢
  omega

lemma Inv.delFree (h : Inv s held) (hp : p ∈ s.list z o) :
    Inv (s.delFree z p o) (⟨p, o⟩ :: held) := by
  obtain ⟨ho, hal, hin, hbud, hord⟩ := h.free z o p hp
  have hfr : Frame s (s.delFree z p o) := delFree_frame
  have hz : pfnZone p = z := h.layout.zone_eq hin
  refine ⟨hfr.layout h.layout, ?_, ?_, ?_, ?_, ?_, ?_⟩
  · intro q
    have := h.cover q
    have := h.delFree_coverage hp q
    rw [coverage_cons, if_congr (hfr.managed q) rfl rfl]
    omega
  · intro y i r hr
    obtain ⟨hr, hne⟩ := (h.mem_delFree).1 hr
    rw [hfr.inZone, delFree_page_ne hne]
    exact h.free y i r hr
  · intro r hr
    by_cases hrp : r = p
    · subst hrp
      rw [delFree_page_self] at hr
      cases hr
    · rw [delFree_page_ne hrp] at hr ⊢
      exact (h.mem_delFree).2 ⟨h.listed r hr, hrp⟩
  · intro b hb
    rcases List.mem_cons.1 hb with rfl | hb
    · exact ⟨ho, hal, (hfr.inZone _ _).2 (hz ▸ hin)⟩
    · obtain ⟨h₁, h₂, h₃⟩ := h.held b hb
      exact ⟨h₁, h₂, (hfr.inZone _ _).2 h₃⟩
  · intro y i
    rw [h.delFree_list hp, delFree_count, h.counts y i]
    split
    · rename_i hc
      obtain ⟨rfl, rfl⟩ := hc
      rw [List.length_erase_of_mem hp]
    · rfl
  · intro y i r hi hr hm
    exact h.merged y i r hi ((h.mem_delFree).1 hr).1 ((h.mem_delFree).1 hm).1

lemma Inv.merge (h : Inv s (⟨p ^^^ 2 ^ o, o⟩ :: ⟨p, o⟩ :: held)) (ho : o + 1 < maxOrder)
    (hz : pfnZone (p ^^^ 2 ^ o) = pfnZone p) :
    Inv s (⟨clearBit p o, o + 1⟩ :: held) ∧ pfnZone (clearBit p o) = pfnZone p := by
  obtain ⟨-, -, hbin⟩ := h.head
  obtain ⟨-, hal, hin⟩ := h.held ⟨p, o⟩ (by simp)
  have hal : 2 ^ o ∣ p := hal
  rw [hz] at hbin
  obtain ⟨r, hr, hclear, hcov, hzone, hbase⟩ : ∃ r, 2 ^ (o + 1) ∣ r ∧ clearBit p o = r ∧
      (∀ q, coverage (⟨p ^^^ 2 ^ o, o⟩ :: ⟨p, o⟩ :: held) q = coverage (⟨r, o + 1⟩ :: held) q) ∧
      s.InZone (pfnZone p) ⟨r, o + 1⟩ ∧ pfnZone r = pfnZone p := by
    rcases half_cases hal with ⟨he, hx⟩ | ⟨r, hr, rfl, hx⟩
    · refine ⟨p, he, clearBit_of_even he, fun q => ?_, ?_, rfl⟩
      · have := contains_halves p o q
        simp only [coverage_cons, hx]
        omega
      · rw [hx] at hbin
        have := hin.1
        have := hbin.2
        simp only [InZone] at *
        omega
    · refine ⟨r, hr, clearBit_of_odd hr, fun q => ?_, ?_, by rwa [hx] at hz⟩
      · have := contains_halves r o q
        simp only [coverage_cons, hx]
        omega
      · rw [hx] at hbin
        have := hin.2
        have := hbin.1
        simp only [InZone] at *
        omega
  rw [hclear]
  refine ⟨⟨h.layout, fun q => ?_, h.free, h.listed, ?_, h.counts, h.merged⟩, hbase⟩
  · rw [← hcov q, h.cover q]
  · intro b hb
    rcases List.mem_cons.1 hb with rfl | hb
    · exact ⟨ho, hr, hbase ▸ hzone⟩
    · exact h.held b (by simp [hb])

lemma Inv.split (h : Inv s (⟨p, o + 1⟩ :: held)) :
    Inv s (⟨p + 2 ^ o, o⟩ :: ⟨p, o⟩ :: held) ∧ pfnZone (p + 2 ^ o) = pfnZone p := by
  obtain ⟨ho, hal, hin⟩ := h.head
  have hup : s.InZone (pfnZone p) ⟨p + 2 ^ o, o⟩ := by
    simp only [InZone] at *
    omega
  have hlow : s.InZone (pfnZone p) ⟨p, o⟩ := by
    simp only [InZone] at *
    omega
  have hz : pfnZone (p + 2 ^ o) = pfnZone p := h.layout.zone_eq hup
  refine ⟨⟨h.layout, fun q => ?_, h.free, h.listed, ?_, h.counts, h.merged⟩, hz⟩
  · have := h.cover q
    have := contains_halves p o q
    simp only [coverage_cons] at *
    omega
  · intro b hb
    rcases List.mem_cons.1 hb with rfl | hb
    · exact ⟨Nat.lt_of_succ_lt ho, dvd_add (dvd_of_succ hal) dvd_rfl, hz ▸ hup⟩
    · rcases List.mem_cons.1 hb with rfl | hb
      · exact ⟨Nat.lt_of_succ_lt ho, dvd_of_succ hal, hlow⟩
      · exact h.held b (by simp [hb])

end Steps

end MyOS.Memory.Pmm
