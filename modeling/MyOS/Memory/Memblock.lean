import MyOS.Boot.BootInfo
import MyOS.Memory.Buddy

/-! The boot allocator: the table of free regions, cutting reserved ranges out of it, and the
hand-over of what is left to the buddy allocator. -/

namespace MyOS.Memory

open Boot Library

def memblockMax : ℕ := 64
def mib : ℕ := 2 ^ 20
def sizeofPage : ℕ := 64

structure Memblock where
  regions : List Region := []
  maxRam : ℕ := 0
  retired : Bool := false
  allocatedBytes : ℕ := 0
  mem : ℕ → UInt8

def addRegion (rs : List Region) (base stop : ℕ) : List Region :=
  if stop ≤ base then rs
  else if rs.length = memblockMax then rs
  else rs ++ [⟨base, stop⟩]

def cutRegion (rbase rend : ℕ) (i : ℕ) (r : Region) (rs : List Region) : List Region :=
  if rend ≤ r.base ∨ r.stop ≤ rbase then rs
  else
    let rs := rs.set i ⟨r.base, max r.base (min rbase r.stop)⟩
    if rend < r.stop then addRegion rs (max rend r.base) r.stop else rs

def cutFrom (rbase rend : ℕ) : ℕ → ℕ → List Region → List Region
  | 0, _, rs => rs
  | n + 1, i, rs =>
    match rs[i]? with
    | none => rs
    | some r => cutFrom rbase rend n (i + 1) (cutRegion rbase rend i r rs)

def reserve (rs : List Region) (base stop : ℕ) : List Region :=
  (cutFrom (alignDown base pageSize) (alignUp stop pageSize) memblockMax 0 rs).filter
    fun r => r.base < r.stop

namespace Memblock

def addUsable (s : Memblock) (m : MemRegion) : Memblock :=
  if m.type ≠ .usable then s
  else
    let stop := alignDown ((m.base + m.len) % 2 ^ 64) pageSize
    { s with
      regions := addRegion s.regions (alignUp m.base pageSize) stop
      maxRam := if s.maxRam < stop then stop else s.maxRam }

def reservedRanges (image : Region) (bi : BootInfo) : List Region :=
  [⟨0, mib⟩, image, ⟨bi.mbiPhys, (bi.mbiPhys + bi.mbiSize) % 2 ^ 64⟩] ++
    bi.modules.map fun m => ⟨m.physStart, m.physEnd⟩

def memblockInit (image : Region) (bi : BootInfo) (mem : ℕ → UInt8) : Memblock :=
  let s := bi.mmap.foldl addUsable { mem := mem }
  { s with regions := (reservedRanges image bi).foldl (fun rs r => reserve rs r.base r.stop) s.regions }

def allocFrom (size align limit : ℕ) : List Region → Option ℕ
  | [] => none
  | r :: rs =>
    let stop := min r.stop limit
    if stop < size then allocFrom size align limit rs
    else
      let base := alignDown (stop - size) align
      if base < r.base then allocFrom size align limit rs else some base

/-- `none` is a panic. -/
def memblockAlloc (s : Memblock) (size align limit : ℕ) : Option (ℕ × Memblock) :=
  if s.retired then none
  else
    let size := alignUp size pageSize
    (allocFrom size align limit s.regions.reverse).map fun base =>
      (base, { s with
        regions := reserve s.regions base (base + size)
        mem := Bytes.fill s.mem base size 0
        allocatedBytes := s.allocatedBytes + size })

/-- `pmm_init`: the page array is allocated, and what is left goes to the buddy allocator. -/
def pmmInit (s : Memblock) : Option (Memblock × Pmm) :=
  (s.memblockAlloc (s.maxRam / pageSize * sizeofPage % 2 ^ 64) pageSize (2 ^ 64 - 1)).map
    fun t => ({ t.2 with retired := true }, Pmm.pmmInit t.2.maxRam t.2.mem t.2.regions)

end Memblock

end MyOS.Memory

/-! Cutting a range out of the table of free regions, the table that `memblock_init` builds, and what
`memblock_alloc` does to it. -/

namespace MyOS.Memory

open Boot

namespace Region

def Contains (r : Region) (a : ℕ) : Prop := r.base ≤ a ∧ a < r.stop

instance (r : Region) (a : ℕ) : Decidable (r.Contains a) := by
  unfold Contains
  infer_instance

def Aligned (r : Region) : Prop := pageSize ∣ r.base ∧ pageSize ∣ r.stop

end Region

section Cutting

variable {rs : List Region} {r : Region} {lo hi base stop a n i : ℕ}

def sharing (rs : List Region) (a : ℕ) : ℕ := rs.countP fun r => decide (r.Contains a)

lemma sharing_pos (hr : r ∈ rs) (ha : r.Contains a) : 0 < sharing rs a :=
  List.countP_pos_iff.2 ⟨r, hr, by simpa using ha⟩

lemma exists_of_sharing_pos (h : 0 < sharing rs a) : ∃ r ∈ rs, r.Contains a := by
  obtain ⟨r, hr, ha⟩ := List.countP_pos_iff.1 h
  exact ⟨r, hr, by simpa using ha⟩

lemma sharing_le_one (h : rs.Pairwise fun r r' => ¬ (r.Contains a ∧ r'.Contains a)) :
    sharing rs a ≤ 1 := by
  induction h with
  | nil => simp [sharing]
  | @cons r rs hr _ ih =>
    simp only [sharing, List.countP_cons] at ih ⊢
    split
    · rename_i ha
      have : sharing rs a = 0 := by
        by_contra hpos
        obtain ⟨r', hr', ha'⟩ := exists_of_sharing_pos (Nat.pos_of_ne_zero hpos)
        exact hr r' hr' ⟨by simpa using ha, ha'⟩
      simp only [sharing] at this
      omega
    · omega

lemma pairwise_disjoint (h : ∀ a, sharing rs a ≤ 1) : rs.Pairwise Region.Disjoint := by
  induction rs with
  | nil => exact .nil
  | cons r rs ih =>
    have hcons : ∀ a, sharing (r :: rs) a = sharing rs a + if r.Contains a then 1 else 0 := by
      intro a
      simp [sharing, List.countP_cons]
    refine .cons (fun r' hr' a h₁ h₂ h₃ => ?_) (ih fun a => ?_)
    · by_contra h₄
      have hle := h a
      rw [hcons, if_pos ⟨h₁, h₂⟩] at hle
      have := sharing_pos hr' ⟨h₃, not_le.1 h₄⟩
      omega
    · have := h a
      rw [hcons] at this
      omega

lemma sharing_addRegion_le :
    sharing (addRegion rs base stop) a ≤ sharing rs a + if base ≤ a ∧ a < stop then 1 else 0 := by
  simp only [addRegion]
  split
  · omega
  split
  · omega
  · simp only [sharing, List.countP_append, List.countP_singleton, decide_eq_true_eq]
    exact le_rfl

lemma sharing_set (r' : Region) (hr : rs[i]? = some r) :
    sharing (rs.set i r') a + (if r.Contains a then 1 else 0) =
      sharing rs a + if r'.Contains a then 1 else 0 := by
  obtain ⟨hi, rfl⟩ := List.getElem?_eq_some_iff.1 hr
  have hpos : (if rs[i].Contains a then 1 else 0) ≤ sharing rs a := by
    split
    · rename_i h
      exact sharing_pos (List.getElem_mem hi) h
    · exact Nat.zero_le _
  simp only [sharing, List.countP_set hi, decide_eq_true_eq] at hpos ⊢
  omega

lemma length_addRegion (h : rs.length ≤ memblockMax) :
    (addRegion rs base stop).length ≤ memblockMax := by
  simp only [addRegion]
  split
  · exact h
  split
  · exact h
  · rename_i h'
    simp only [List.length_append, List.length_singleton]
    omega

lemma mem_addRegion (h : r ∈ addRegion rs base stop) : r ∈ rs ∨ r = ⟨base, stop⟩ := by
  simp only [addRegion] at h
  split at h
  · exact Or.inl h
  split at h
  · exact Or.inl h
  · simpa using h

def Clear (lo hi : ℕ) (r : Region) : Prop := ∀ a, r.Contains a → ¬ (lo ≤ a ∧ a < hi)

structure CutAt (lo hi i : ℕ) (rs rs' : List Region) : Prop where
  length : rs'.length ≤ memblockMax
  sharing : ∀ a, sharing rs' a ≤ Memory.sharing rs a
  before : ∀ k, k < i → rs'[k]? = rs[k]?
  here : ∀ r, rs'[i]? = some r → Clear lo hi r
  aligned : pageSize ∣ lo → pageSize ∣ hi → (∀ r ∈ rs, r.Aligned) → ∀ r ∈ rs', r.Aligned

lemma contains_sides (hle : lo ≤ hi) :
    ((if (Region.mk r.base (max r.base (min lo r.stop))).Contains a then 1 else 0) +
      if max hi r.base ≤ a ∧ a < r.stop then 1 else 0) ≤ if r.Contains a then 1 else 0 := by
  by_cases hleft : (Region.mk r.base (max r.base (min lo r.stop))).Contains a
  · have hright : ¬ (max hi r.base ≤ a ∧ a < r.stop) := by
      simp only [Region.Contains] at hleft
      omega
    have hr : r.Contains a := by
      simp only [Region.Contains] at hleft ⊢
      omega
    rw [if_pos hleft, if_neg hright, if_pos hr]
  · rw [if_neg hleft]
    split
    · rename_i hright
      have hr : r.Contains a := ⟨by omega, hright.2⟩
      rw [if_pos hr]
    · exact Nat.zero_le _

lemma addRegion_getElem? {k : ℕ} (hk : k < rs.length) : (addRegion rs base stop)[k]? = rs[k]? := by
  simp only [addRegion]
  split
  · rfl
  split
  · rfl
  · exact List.getElem?_append_left hk

lemma cutRegion_cutAt (hle : lo ≤ hi) (hlen : rs.length ≤ memblockMax) (hr : rs[i]? = some r) :
    CutAt lo hi i rs (cutRegion lo hi i r rs) := by
  have hi' : i < rs.length := (List.getElem?_eq_some_iff.1 hr).1
  rw [cutRegion]
  split
  · rename_i hout
    refine ⟨hlen, fun a => le_rfl, fun k _ => rfl, fun r hr' a ha => ?_, fun _ _ h => h⟩
    cases hr.symm.trans hr'
    simp only [Region.Contains] at ha
    omega
  · rename_i hin
    have hset : ∀ r' ∈ rs.set i ⟨r.base, max r.base (min lo r.stop)⟩,
        r' ∈ rs ∨ r' = ⟨r.base, max r.base (min lo r.stop)⟩ := fun r' h => List.mem_or_eq_of_mem_set h
    have hclear : Clear lo hi ⟨r.base, max r.base (min lo r.stop)⟩ := fun a ha => by
      simp only [Region.Contains] at ha
      omega
    have hal : pageSize ∣ lo → (∀ r ∈ rs, r.Aligned) →
        (Region.mk r.base (max r.base (min lo r.stop))).Aligned := by
      intro hlo h
      obtain ⟨hb, hs⟩ := h r (List.mem_of_getElem? hr)
      refine ⟨hb, ?_⟩
      rcases max_choice r.base (min lo r.stop) with he | he <;> rw [he]
      · exact hb
      · rcases min_choice lo r.stop with he | he <;> rw [he] <;> assumption
    split
    · rename_i hright
      refine ⟨length_addRegion (by simpa using hlen), fun a => ?_, fun k hk => ?_, fun r' hr' => ?_,
        fun hlo hhi h r' hr' => ?_⟩
      · have hs := sharing_set (a := a) ⟨r.base, max r.base (min lo r.stop)⟩ hr
        have hside := contains_sides (r := r) (a := a) hle
        refine sharing_addRegion_le.trans ?_
        omega
      · rw [addRegion_getElem? (by simp only [List.length_set]; omega)]
        exact List.getElem?_set_ne (by omega)
      · rw [addRegion_getElem? (by simpa using hi'), List.getElem?_set_self hi'] at hr'
        cases hr'
        exact hclear
      · rcases mem_addRegion hr' with hr' | rfl
        · rcases hset r' hr' with hr' | rfl
          · exact h r' hr'
          · exact hal hlo h
        · obtain ⟨hb, hs⟩ := h r (List.mem_of_getElem? hr)
          refine ⟨?_, hs⟩
          rcases max_choice hi r.base with he | he <;> simp only [he] <;> assumption
    · rename_i hright
      refine ⟨by simpa using hlen, fun a => ?_, fun k hk => ?_, fun r' hr' => ?_,
        fun hlo hhi h r' hr' => ?_⟩
      · have hs := sharing_set (a := a) ⟨r.base, max r.base (min lo r.stop)⟩ hr
        have hside := contains_sides (r := r) (a := a) hle
        show sharing (rs.set i _) a ≤ sharing rs a
        omega
      · exact List.getElem?_set_ne (by omega)
      · rw [List.getElem?_set_self hi'] at hr'
        cases hr'
        exact hclear
      · rcases hset r' hr' with hr' | rfl
        · exact h r' hr'
        · exact hal hlo h

lemma cutFrom_spec (hle : lo ≤ hi) (hlen : rs.length ≤ memblockMax) (hn : memblockMax ≤ i + n)
    (hbefore : ∀ k r, k < i → rs[k]? = some r → Clear lo hi r) :
    (∀ a, sharing (cutFrom lo hi n i rs) a ≤ sharing rs a) ∧
      (∀ r ∈ cutFrom lo hi n i rs, Clear lo hi r) ∧
      (cutFrom lo hi n i rs).length ≤ memblockMax ∧
      (pageSize ∣ lo → pageSize ∣ hi → (∀ r ∈ rs, r.Aligned) →
        ∀ r ∈ cutFrom lo hi n i rs, r.Aligned) := by
  have hall : rs.length ≤ i → ∀ r ∈ rs, Clear lo hi r := by
    intro h r hr
    obtain ⟨k, hk, rfl⟩ := List.getElem_of_mem hr
    exact hbefore k _ (by omega) (List.getElem?_eq_getElem hk)
  induction n generalizing i rs with
  | zero => exact ⟨fun _ => le_rfl, hall (by omega), hlen, fun _ _ h => h⟩
  | succ n ih =>
    rw [cutFrom]
    split
    · rename_i hnone
      exact ⟨fun _ => le_rfl, hall (List.getElem?_eq_none_iff.1 hnone), hlen, fun _ _ h => h⟩
    · rename_i r hr
      have hc := cutRegion_cutAt hle hlen hr
      have hnext : ∀ k r', k < i + 1 → (cutRegion lo hi i r rs)[k]? = some r' → Clear lo hi r' := by
        intro k r' hk hr'
        rcases Nat.lt_succ_iff_lt_or_eq.1 hk with hk | rfl
        · exact hbefore k r' hk (hc.before k hk ▸ hr')
        · exact hc.here r' hr'
      obtain ⟨hsh, hcl, hl, hal⟩ := ih hc.length (by omega) hnext fun h r' hr' => by
        obtain ⟨k, hk, rfl⟩ := List.getElem_of_mem hr'
        exact hnext k _ (by omega) (List.getElem?_eq_getElem hk)
      exact ⟨fun a => (hsh a).trans (hc.sharing a), hcl, hl,
        fun hlo hhi h => hal hlo hhi (hc.aligned hlo hhi h)⟩

structure Table (top : ℕ) (rs : List Region) : Prop where
  length : rs.length ≤ memblockMax
  aligned : ∀ r ∈ rs, r.Aligned
  nonempty : ∀ r ∈ rs, r.base < r.stop
  below : ∀ r ∈ rs, r.stop ≤ top

def outer (r : Region) : Region := ⟨alignDown r.base pageSize, alignUp r.stop pageSize⟩

structure Proper (r : Region) : Prop where
  base : r.base < 2 ^ 64
  stop : r.stop + pageSize ≤ 2 ^ 64
  le : (outer r).base ≤ (outer r).stop

lemma alignUp_le_self {x : ℕ} (h : x + pageSize ≤ 2 ^ 64) : x ≤ alignUp x pageSize := by
  have hsize : pageSize = 2 ^ 12 := rfl
  rw [hsize] at h ⊢
  exact (alignUp_spec (k := 12) (by decide) (by omega)).2

lemma Proper.contains (h : Proper r) (ha : r.Contains a) : (outer r).Contains a :=
  ⟨(dvd_alignDown h.base).2.1.trans ha.1, ha.2.trans_le (alignUp_le_self h.stop)⟩

lemma Proper.of_le (hle : r.base ≤ r.stop) (hstop : r.stop + pageSize ≤ 2 ^ 64) : Proper r := by
  have hbase : r.base < 2 ^ 64 := by
    have : 0 < pageSize := by decide
    omega
  exact ⟨hbase, hstop, ((dvd_alignDown hbase).2.1.trans hle).trans (alignUp_le_self hstop)⟩

lemma reserve_spec {top : ℕ} (ht : Table top rs) (hr : Proper r) :
    Table top (reserve rs r.base r.stop) ∧
      (∀ a, sharing (reserve rs r.base r.stop) a ≤ sharing rs a) ∧
      ∀ a, (outer r).Contains a → sharing (reserve rs r.base r.stop) a = 0 := by
  obtain ⟨hsh, hcl, hlen, hal⟩ := cutFrom_spec (n := memblockMax) (i := 0) hr.le ht.length (by omega)
    fun k r hk => absurd hk (Nat.not_lt_zero k)
  have hmem : ∀ r' ∈ reserve rs r.base r.stop,
      r' ∈ cutFrom (outer r).base (outer r).stop memblockMax 0 rs ∧ r'.base < r'.stop := fun r' h => by
    simpa [reserve, outer] using h
  have hle : ∀ a, sharing (reserve rs r.base r.stop) a ≤ sharing rs a := fun a =>
    (List.Sublist.countP_le List.filter_sublist).trans (hsh a)
  refine ⟨⟨(List.length_filter_le _ _).trans hlen, fun r' h => ?_, fun r' h => (hmem r' h).2,
    fun r' h => ?_⟩, hle, fun a ha => ?_⟩
  · exact hal (dvd_alignDown hr.base).1 (dvd_alignUp _) ht.aligned r' (hmem r' h).1
  · -- the last byte of the region was in a region before
    have hlt := (hmem r' h).2
    have hlast : r'.Contains (r'.stop - 1) := ⟨by omega, by omega⟩
    obtain ⟨r₀, h₀, ha₀⟩ := exists_of_sharing_pos ((sharing_pos h hlast).trans_le (hle _))
    have := ht.below r₀ h₀
    have := ha₀.2
    omega
  · by_contra hpos
    obtain ⟨r', hr', ha'⟩ := exists_of_sharing_pos (Nat.pos_of_ne_zero hpos)
    exact hcl r' (hmem r' hr').1 a ha' ha

lemma reserveAll_spec {top : ℕ} {ranges : List Region} (ht : Table top rs)
    (hr : ∀ r ∈ ranges, Proper r) :
    Table top (ranges.foldl (fun rs r => reserve rs r.base r.stop) rs) ∧
      (∀ a, sharing (ranges.foldl (fun rs r => reserve rs r.base r.stop) rs) a ≤ sharing rs a) ∧
      ∀ r ∈ ranges, ∀ a, (outer r).Contains a →
        sharing (ranges.foldl (fun rs r => reserve rs r.base r.stop) rs) a = 0 := by
  induction ranges generalizing rs with
  | nil => exact ⟨ht, fun _ => le_rfl, by simp⟩
  | cons r ranges ih =>
    obtain ⟨ht', hle, hgone⟩ := reserve_spec ht (hr r List.mem_cons_self)
    obtain ⟨ht'', hle', hgone'⟩ := ih ht' fun r' h => hr r' (List.mem_cons_of_mem _ h)
    refine ⟨ht'', fun a => (hle' a).trans (hle a), fun r' h a ha => ?_⟩
    rcases List.mem_cons.1 h with rfl | h
    · exact Nat.le_zero.1 ((hle' a).trans (hgone a ha).le)
    · exact hgone' r' h a ha

end Cutting

namespace Memblock

section Init

def inner (m : MemRegion) : Region :=
  ⟨alignUp m.base pageSize, alignDown ((m.base + m.len) % 2 ^ 64) pageSize⟩

def innerRanges (ms : List MemRegion) : List Region :=
  ((ms.filter fun m => m.type = .usable).map inner).filter fun r => r.base < r.stop

def usableRanges (bi : BootInfo) : List Region := (innerRanges bi.mmap).take memblockMax

variable {s : Memblock} {ms : List MemRegion} {m : MemRegion} {bi : BootInfo} {image r : Region} {a : ℕ}

lemma innerRanges_cons (m : MemRegion) (ms : List MemRegion) :
    innerRanges (m :: ms) = innerRanges [m] ++ innerRanges ms := by
  simp only [innerRanges, ← List.filter_append, ← List.map_append]
  rfl

lemma mem_innerRanges : r ∈ innerRanges ms ↔
    r.base < r.stop ∧ ∃ m ∈ ms, m.type = .usable ∧ inner m = r := by
  simp only [innerRanges, List.mem_filter, List.mem_map, decide_eq_true_eq, and_assoc]
  exact and_comm

lemma addUsable_regions (h : s.regions.length ≤ memblockMax) :
    (s.addUsable m).regions = (s.regions ++ innerRanges [m]).take memblockMax := by
  by_cases hm : m.type = .usable
  · have hadd : (s.addUsable m).regions = addRegion s.regions (inner m).base (inner m).stop := by
      simp [addUsable, hm, inner]
    by_cases hlt : (inner m).base < (inner m).stop
    · have hone : innerRanges [m] = [inner m] := by simp [innerRanges, hm, hlt]
      rw [hone, hadd, addRegion, if_neg (not_le.2 hlt)]
      split
      · rename_i hfull
        rw [List.take_append_of_le_length hfull.ge, ← hfull, List.take_length]
      · rw [List.take_of_length_le]
        simp only [List.length_append, List.length_singleton]
        omega
    · have hnone : innerRanges [m] = [] := by simp [innerRanges, hm, hlt]
      rw [hnone, hadd, addRegion, if_pos (not_lt.1 hlt), List.append_nil, List.take_of_length_le h]
  · have hnone : innerRanges [m] = [] := by simp [innerRanges, hm]
    rw [hnone, List.append_nil, List.take_of_length_le h]
    simp [addUsable, hm]

lemma foldl_addUsable_regions (ms : List MemRegion) (h : s.regions.length ≤ memblockMax) :
    (ms.foldl addUsable s).regions = (s.regions ++ innerRanges ms).take memblockMax := by
  induction ms generalizing s with
  | nil => simp [innerRanges, List.take_of_length_le h]
  | cons m ms ih =>
    have hlen : (s.addUsable m).regions.length ≤ memblockMax := by
      rw [addUsable_regions h]
      exact List.length_take_le _ _
    rw [List.foldl_cons, ih hlen, addUsable_regions h, innerRanges_cons m ms, ← List.append_assoc, List.take_append,
      List.take_take, List.length_take, min_self]
    conv_rhs => rw [List.take_append]
    congr 2
    omega

lemma foldl_addUsable_maxRam (ms : List MemRegion) (hm : s.maxRam < 2 ^ 64) :
    s.maxRam ≤ (ms.foldl addUsable s).maxRam ∧ (ms.foldl addUsable s).maxRam < 2 ^ 64 ∧
      ∀ r ∈ innerRanges ms, r.stop ≤ (ms.foldl addUsable s).maxRam := by
  induction ms generalizing s with
  | nil => exact ⟨le_rfl, hm, by simp [innerRanges]⟩
  | cons m ms ih =>
    have hstop : (inner m).stop < 2 ^ 64 := by
      have hmod := Nat.mod_lt (m.base + m.len) (by decide : 0 < 2 ^ 64)
      exact (dvd_alignDown hmod).2.1.trans_lt hmod
    have hnext : s.maxRam ≤ (s.addUsable m).maxRam ∧ (s.addUsable m).maxRam < 2 ^ 64 ∧
        (m.type = .usable → (inner m).stop ≤ (s.addUsable m).maxRam) := by
      by_cases hu : m.type = .usable
      · have : (s.addUsable m).maxRam =
            if s.maxRam < (inner m).stop then (inner m).stop else s.maxRam := by
          rw [addUsable, if_neg (not_not.2 hu)]
          rfl
        rw [this]
        split <;> exact ⟨by omega, by omega, fun _ => by omega⟩
      · have : (s.addUsable m).maxRam = s.maxRam := by simp [addUsable, hu]
        rw [this]
        exact ⟨le_rfl, hm, fun h => absurd h hu⟩
    obtain ⟨hle, hlt, hall⟩ := ih hnext.2.1
    refine ⟨hnext.1.trans hle, hlt, fun r hr => ?_⟩
    rw [innerRanges_cons] at hr
    rcases List.mem_append.1 hr with hr | hr
    · obtain ⟨-, m', hm', hu, rfl⟩ := mem_innerRanges.1 hr
      obtain rfl := List.mem_singleton.1 hm'
      exact (hnext.2.2 hu).trans hle
    · exact hall r hr

def UsableRam (bi : BootInfo) (a : ℕ) : Prop :=
  (∃ m ∈ bi.mmap, m.type = .usable ∧ m.base ≤ a ∧ a < m.base + m.len) ∧
    ∀ m ∈ bi.mmap, m.type ≠ .usable → ¬ (m.base ≤ a ∧ a < m.base + m.len)

def Taken (image : Region) (bi : BootInfo) (a : ℕ) : Prop :=
  ∃ r ∈ reservedRanges image bi, (outer r).Contains a

/-- Outside the reserved pages, the start of no usable entry wraps around when it is rounded up, and
the whole pages of a usable entry are in no other entry; and no module ends before its start. -/
structure MapSound (image : Region) (bi : BootInfo) : Prop where
  start : ∀ m ∈ bi.mmap, m.type = .usable → ∀ a, (inner m).Contains a → a < m.base →
    Taken image bi a
  apart : (usableRanges bi).Pairwise fun r r' => ∀ a, r.Contains a → r'.Contains a →
    Taken image bi a
  others : ∀ r ∈ usableRanges bi, ∀ m ∈ bi.mmap, m.type ≠ .usable → ∀ a, r.Contains a →
    m.base ≤ a → a < m.base + m.len → Taken image bi a
  modules : ∀ m ∈ bi.modules, (outer ⟨m.physStart, m.physEnd⟩).base ≤
    (outer ⟨m.physStart, m.physEnd⟩).stop

lemma proper_reservedRanges (hb : bi.Bounded) (himage : Proper image) (hmap : MapSound image bi) :
    ∀ r ∈ reservedRanges image bi, Proper r := by
  intro r hr
  have hsize : pageSize = 4096 := rfl
  have hmbi := hb.mbi
  simp only [reservedRanges, List.mem_append, List.mem_cons, List.not_mem_nil, or_false,
    List.mem_map] at hr
  rcases hr with (rfl | rfl | rfl) | ⟨m, hm, rfl⟩
  · exact .of_le (Nat.zero_le _) (by decide)
  · exact himage
  · rw [Nat.mod_eq_of_lt (by omega)]
    exact .of_le (Nat.le_add_right _ _) (by rw [hsize]; simp only; omega)
  · have := hb.modules m hm
    exact ⟨by simp only; omega, by rw [hsize]; simp only; omega, hmap.modules m hm⟩

structure FreeRam (image : Region) (bi : BootInfo) (s : Memblock) : Prop where
  table : Table s.maxRam s.regions
  max : s.maxRam < 2 ^ 64
  once : ∀ a, sharing s.regions a ≤ 1
  usable : ∀ a, 0 < sharing s.regions a → UsableRam bi a
  reserved : ∀ a, 0 < sharing s.regions a → ∀ r ∈ reservedRanges image bi, ¬ r.Contains a

lemma freeRam_init {mem : ℕ → UInt8} (hb : bi.Bounded) (himage : Proper image)
    (hmap : MapSound image bi) : FreeRam image bi (memblockInit image bi mem) := by
  let s₀ : Memblock := bi.mmap.foldl addUsable { mem := mem }
  have hregions : s₀.regions = usableRanges bi := by
    simpa [usableRanges] using foldl_addUsable_regions (s := { mem := mem }) bi.mmap (by simp)
  obtain ⟨-, hmax, hstop⟩ := foldl_addUsable_maxRam (s := { mem := mem }) bi.mmap (by simp)
  have hinner : ∀ r ∈ usableRanges bi, r.base < r.stop ∧
      ∃ m ∈ bi.mmap, m.type = .usable ∧ inner m = r := fun r hr =>
    mem_innerRanges.1 (List.mem_of_mem_take hr)
  have htable : Table s₀.maxRam s₀.regions := by
    rw [hregions]
    refine ⟨List.length_take_le _ _, fun r hr => ?_, fun r hr => (hinner r hr).1,
      fun r hr => hstop r (List.mem_of_mem_take hr)⟩
    obtain ⟨-, m, -, -, rfl⟩ := hinner r hr
    exact ⟨dvd_alignUp _, (dvd_alignDown (Nat.mod_lt _ (by decide))).1⟩
  have hproper := proper_reservedRanges hb himage hmap
  obtain ⟨ht, hle, hgone⟩ := reserveAll_spec htable hproper
  have hfree : ∀ a, 0 < sharing (memblockInit image bi mem).regions a →
      ¬ Taken image bi a ∧ 0 < sharing (usableRanges bi) a := by
    intro a ha
    refine ⟨fun ⟨r, hr, hin⟩ => ha.ne' (hgone r hr a hin), ?_⟩
    rw [← hregions]
    exact ha.trans_le (hle a)
  refine ⟨ht, hmax, fun a => ?_, fun a ha => ?_, fun a ha r hr hin => ?_⟩
  · rcases Nat.eq_zero_or_pos (sharing (memblockInit image bi mem).regions a) with h | h
    · omega
    · refine (hle a).trans ?_
      rw [hregions]
      exact sharing_le_one (hmap.apart.imp fun hrr ⟨h₁, h₂⟩ => (hfree a h).1 (hrr a h₁ h₂))
  · obtain ⟨hnot, hpos⟩ := hfree a ha
    obtain ⟨r, hr, hin⟩ := exists_of_sharing_pos hpos
    obtain ⟨-, m, hm, hu, rfl⟩ := hinner r hr
    refine ⟨⟨m, hm, hu, ?_, ?_⟩, fun m' hm' hu' h => hnot (hmap.others _ hr m' hm' hu' a hin h.1 h.2)⟩
    · by_contra hlt
      exact hnot (hmap.start m hm hu a hin (not_le.1 hlt))
    · have hmod := Nat.mod_lt (m.base + m.len) (by decide : 0 < 2 ^ 64)
      exact (hin.2.trans_le (dvd_alignDown hmod).2.1).trans_le (Nat.mod_le _ _)
  · exact (hfree a ha).1 ⟨r, hr, (hproper r hr).contains hin⟩

end Init

section Alloc

variable {s t : Memblock} {bi : BootInfo} {image r : Region} {rs : List Region}
  {a base size k limit : ℕ}

lemma allocFrom_some (hk : k ≤ 64) (hl : limit < 2 ^ 64)
    (h : allocFrom size (2 ^ k) limit rs = some base) :
    2 ^ k ∣ base ∧ base + size ≤ limit ∧ ∃ r ∈ rs, r.base ≤ base ∧ base + size ≤ r.stop := by
  induction rs with
  | nil => cases h
  | cons r rs ih =>
    have hlater : allocFrom size (2 ^ k) limit rs = some base → 2 ^ k ∣ base ∧
        base + size ≤ limit ∧ ∃ r' ∈ r :: rs, r'.base ≤ base ∧ base + size ≤ r'.stop := by
      intro h
      obtain ⟨hd, hle, r', hr', hin⟩ := ih h
      exact ⟨hd, hle, r', List.mem_cons_of_mem _ hr', hin⟩
    simp only [allocFrom] at h
    split at h
    · exact hlater h
    · rename_i hfit
      have hdown := alignDown_eq (x := min r.stop limit - size) (by omega) hk
      rw [hdown] at h
      split at h
      · exact hlater h
      · rename_i hin
        cases h
        have := Nat.div_mul_le_self (min r.stop limit - size) (2 ^ k)
        exact ⟨dvd_mul_left _ _, by omega, r, List.mem_cons_self, by omega, by omega⟩

structure Allocated (s t : Memblock) (base size align limit : ℕ) : Prop where
  aligned : align ∣ base
  within : base + size ≤ limit
  was : ∀ a, base ≤ a → a < base + size → 0 < sharing s.regions a
  gone : ∀ a, base ≤ a → a < base + size → sharing t.regions a = 0
  le : ∀ a, sharing t.regions a ≤ sharing s.regions a
  table : Table t.maxRam t.regions
  maxRam : t.maxRam = s.maxRam

lemma memblockAlloc_spec (ht : Table s.maxRam s.regions) (hmax : s.maxRam < 2 ^ 64)
    (hk : k ≤ 64) (hl : limit < 2 ^ 64) (hsize : size + pageSize ≤ 2 ^ 64)
    (h : s.memblockAlloc size (2 ^ k) limit = some (base, t)) :
    Allocated s t base size (2 ^ k) limit := by
  have hpage : pageSize = 4096 := rfl
  simp only [memblockAlloc] at h
  split at h
  · cases h
  · obtain ⟨base, hbase, hst⟩ := Option.map_eq_some_iff.1 h
    cases hst
    obtain ⟨hal, hlim, r, hr, hlo, hhi⟩ := allocFrom_some hk hl hbase
    have hr := List.mem_reverse.1 hr
    have hup := alignUp_le_self hsize
    have hstop := ht.below r hr
    obtain ⟨-, c, hc⟩ := ht.aligned r hr
    have hproper : Proper ⟨base, base + alignUp size pageSize⟩ := by
      refine .of_le (Nat.le_add_right _ _) ?_
      change base + alignUp size pageSize + pageSize ≤ 2 ^ 64
      rw [hpage] at hc
      omega
    obtain ⟨htable, hle, hgone⟩ := reserve_spec ht hproper
    refine ⟨hal, by omega, fun a h₁ h₂ => ?_, fun a h₁ h₂ => ?_, hle, htable, rfl⟩
    · exact sharing_pos hr ⟨hlo.trans h₁, by omega⟩
    · exact hgone a (hproper.contains ⟨h₁, by simp only; omega⟩)

end Alloc

end Memblock

end MyOS.Memory
