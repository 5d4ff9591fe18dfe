import MyOS.Memory.Vmalloc

/-! Areas of `vmalloc` and `ioremap` stay apart, and what is returned is mapped. -/

namespace MyOS.Memory

open Library Function

namespace VmState

structure VmInv (s : VmState) : Prop where
  spaced : Spaced s.areas
  mapped : ∀ q, (s.pte q).isSome ↔ ∃ a ∈ s.areas, a.Covers q
  held : ∀ f, f ∈ s.taken ↔ ∃ a ∈ s.areas, a.io = false ∧ ∃ q, a.Covers q ∧ s.pte q = some f
  zero : 0 ∉ s.taken
  once : ∀ a ∈ s.areas, ∀ b ∈ s.areas, a.io = false → b.io = false → ∀ p q f, a.Covers p →
    b.Covers q → s.pte p = some f → s.pte q = some f → p = q

def Holds (s : VmState) (addr size : ℕ) : Prop :=
  ∃ a ∈ s.areas, a.start ≤ addr ∧ addr + size ≤ a.start + a.size ∧
    ∀ v, addr ≤ v → v < addr + size → (s.pte (v / pageSize)).isSome

variable {s t : VmState} {a b : VmArea} {areas front back : List VmArea} {q size : ℕ}

lemma Grant.mem_frames {g : Grant} {f : ℕ} (h : g.page = some f) : f ∈ g.frames := by
  simp [Grant.frames, h]

lemma holds_of_covers (ha : a ∈ s.areas) (hw : a.InWindow) {addr : ℕ} (h₁ : a.start ≤ addr)
    (h₂ : addr + size ≤ a.start + a.size) (h : ∀ q, a.Covers q → (s.pte q).isSome) :
    s.Holds addr size := by
  refine ⟨a, ha, h₁, h₂, fun v hv hv' => h _ (hw.covers.2 ?_)⟩
  obtain ⟨⟨k, hk⟩, n, hn⟩ := And.intro hw.start hw.size
  simp only [hk, hn, pageSize] at h₁ h₂ ⊢
  omega

section Add

variable (hs : s.VmInv) (hsplit : s.areas = front ++ back) (hnew : Spaced (front ++ a :: back))

include hsplit

lemma mem_split : b ∈ front ++ a :: back ↔ b = a ∨ b ∈ s.areas := by
  rw [hsplit, List.mem_append, List.mem_cons, List.mem_append]
  tauto

include hnew

lemma ne_of_mem_split (hb : b ∈ s.areas) : b ≠ a := by
  rintro rfl
  have hnodup := List.nodup_middle.1 hnew.nodup
  exact (List.nodup_cons.1 hnodup).1 (hsplit ▸ hb)

include hs

lemma VmInv.unmapped (hq : a.Covers q) : s.pte q = none := by
  by_contra hne
  obtain ⟨b, hb, hbq⟩ := (hs.mapped q).1 (Option.isSome_iff_ne_none.2 hne)
  exact hnew.other_covers (by simp) ((mem_split hsplit).2 (.inr hb))
    (ne_of_mem_split hsplit hnew hb).symm hq hbq

lemma VmInv.add (hareas : t.areas = front ++ a :: back)
    (hin : ∀ q, a.Covers q → (t.pte q).isSome) (hout : ∀ q, ¬ a.Covers q → t.pte q = s.pte q)
    (htaken : ∀ f, f ∈ t.taken ↔ f ∈ s.taken ∨ a.io = false ∧ ∃ q, a.Covers q ∧ t.pte q = some f)
    (hfresh : a.io = false → ∀ p f, a.Covers p → t.pte p = some f → f ∉ s.taken ∧ f ≠ 0 ∧
      ∀ q, a.Covers q → t.pte q = some f → p = q) : t.VmInv := by
  have hmem : ∀ b, b ∈ t.areas ↔ b = a ∨ b ∈ s.areas := fun b => by
    rw [hareas]
    exact mem_split hsplit
  have hother : ∀ b ∈ s.areas, ∀ q, b.Covers q → t.pte q = s.pte q := fun b hb q hq =>
    hout q (hnew.other_covers ((mem_split hsplit).2 (.inr hb)) (by simp)
      (ne_of_mem_split hsplit hnew hb) hq)
  have hheld : ∀ b ∈ s.areas, b.io = false → ∀ q f, b.Covers q → t.pte q = some f → f ∈ s.taken :=
    fun b hb hbio q f hq hf => (hs.held f).2 ⟨b, hb, hbio, q, hq, hother b hb q hq ▸ hf⟩
  refine ⟨hareas ▸ hnew, fun q => ?_, fun f => ?_, fun h => ?_, fun b hb c hc hbio hcio => ?_⟩
  · by_cases hq : a.Covers q
    · exact iff_of_true (hin q hq) ⟨a, (hmem a).2 (.inl rfl), hq⟩
    · rw [hout q hq, hs.mapped q]
      constructor
      · rintro ⟨b, hb, hbq⟩
        exact ⟨b, (hmem b).2 (.inr hb), hbq⟩
      · rintro ⟨b, hb, hbq⟩
        rcases (hmem b).1 hb with rfl | hb
        · exact absurd hbq hq
        · exact ⟨b, hb, hbq⟩
  · rw [htaken f, hs.held f]
    constructor
    · rintro (⟨b, hb, hbio, q, hq, hf⟩ | ⟨hio, q, hq, hf⟩)
      · exact ⟨b, (hmem b).2 (.inr hb), hbio, q, hq, (hother b hb q hq).trans hf⟩
      · exact ⟨a, (hmem a).2 (.inl rfl), hio, q, hq, hf⟩
    · rintro ⟨b, hb, hbio, q, hq, hf⟩
      rcases (hmem b).1 hb with rfl | hb
      · exact .inr ⟨hbio, q, hq, hf⟩
      · exact .inl ⟨b, hb, hbio, q, hq, (hother b hb q hq).symm.trans hf⟩
  · rcases (htaken 0).1 h with h | ⟨hio, q, hq, hf⟩
    · exact hs.zero h
    · exact (hfresh hio q 0 hq hf).2.1 rfl
  · intro p q f hp hq hpf hqf
    rcases (hmem b).1 hb with rfl | hb <;> rcases (hmem c).1 hc with rfl | hc
    · exact (hfresh hbio p f hp hpf).2.2 q hq hqf
    · exact absurd (hheld c hc hcio q f hq hqf) (hfresh hbio p f hp hpf).1
    · exact absurd (hheld b hb hbio p f hp hpf) (hfresh hcio q f hq hqf).1
    · exact hs.once b hb c hc hbio hcio p q f hp hq (hother b hb p hp ▸ hpf)
        (hother c hc q hq ▸ hqf)

end Add

lemma VmInv.remove (hs : s.VmInv) (ha : a ∈ s.areas) (hareas : t.areas = s.areas.erase a)
    (hin : ∀ q, a.Covers q → t.pte q = none) (hout : ∀ q, ¬ a.Covers q → t.pte q = s.pte q)
    (htaken : ∀ f, f ∈ t.taken ↔ f ∈ s.taken ∧
      ¬ (f ≠ 0 ∧ a.io = false ∧ ∃ q, a.Covers q ∧ s.pte q = some f)) : t.VmInv := by
  have hmem : ∀ b, b ∈ t.areas ↔ b ≠ a ∧ b ∈ s.areas := fun b => by
    rw [hareas]
    exact hs.spaced.nodup.mem_erase_iff
  have hother : ∀ b ∈ t.areas, ∀ q, b.Covers q → t.pte q = s.pte q := fun b hb q hq =>
    hout q (hs.spaced.other_covers ((hmem b).1 hb).2 ha ((hmem b).1 hb).1 hq)
  refine ⟨hareas ▸ hs.spaced.sublist List.erase_sublist, fun q => ?_, fun f => ?_, fun h => ?_,
    fun b hb c hc hbio hcio p q f hp hq hpf hqf => ?_⟩
  · by_cases hq : a.Covers q
    · rw [hin q hq]
      refine iff_of_false (by simp) ?_
      rintro ⟨b, hb, hbq⟩
      exact hs.spaced.other_covers ha ((hmem b).1 hb).2 ((hmem b).1 hb).1.symm hq hbq
    · rw [hout q hq, hs.mapped q]
      constructor
      · rintro ⟨b, hb, hbq⟩
        exact ⟨b, (hmem b).2 ⟨fun h => hq (h ▸ hbq), hb⟩, hbq⟩
      · rintro ⟨b, hb, hbq⟩
        exact ⟨b, ((hmem b).1 hb).2, hbq⟩
  · rw [htaken f]
    constructor
    · rintro ⟨hf, hkeep⟩
      obtain ⟨b, hb, hbio, q, hq, hbf⟩ := (hs.held f).1 hf
      have hb' : b ∈ t.areas := by
        refine (hmem b).2 ⟨fun h => hkeep ⟨?_, h ▸ hbio, q, h ▸ hq, hbf⟩, hb⟩
        rintro rfl
        exact hs.zero hf
      exact ⟨b, hb', hbio, q, hq, (hother b hb' q hq).trans hbf⟩
    · rintro ⟨b, hb, hbio, q, hq, hbf⟩
      rw [hother b hb q hq] at hbf
      refine ⟨(hs.held f).2 ⟨b, ((hmem b).1 hb).2, hbio, q, hq, hbf⟩, ?_⟩
      rintro ⟨-, haio, p, hp, hpf⟩
      have hpq := hs.once a ha b ((hmem b).1 hb).2 haio hbio p q f hp hq hpf hbf
      exact hs.spaced.other_covers ha ((hmem b).1 hb).2 ((hmem b).1 hb).1.symm hp (hpq ▸ hq)
  · exact hs.zero ((htaken 0).1 h).1
  · exact hs.once b ((hmem b).1 hb).2 c ((hmem c).1 hc).2 hbio hcio p q f hp hq
      (hother b hb p hp ▸ hpf) (hother c hc q hq ▸ hqf)

lemma VmInv.unmapArea (hs : s.VmInv) (ha : a ∈ s.areas) :
    (({ s with areas := s.areas.erase a } : VmState).unmapArea a).VmInv := by
  have hw := hs.spaced.window a ha
  have h := unmapFrom_unmapped (s := { s with areas := s.areas.erase a }) a.io hw.start
    hw.end_le
  rw [Nat.zero_add] at h
  refine hs.remove ha h.areas (fun q hq => ?_) (fun q hq => h.outside q ?_) fun f => ?_
  · exact h.inside q (hw.covers_iff.1 hq).1 (hw.covers_iff.1 hq).2
  · rw [hw.covers_iff] at hq
    omega
  · simp only [hw.covers_iff, and_assoc]
    exact h.taken f

lemma VmInv.release {addr : ℕ} {io : Bool} (hs : s.VmInv) (h : s.release addr io = .ok t) :
    t.VmInv := by
  rw [VmState.release] at h
  split at h
  · cases h
    exact hs
  split at h
  · cases h
  · next a ha =>
    split at h
    · cases h
    · cases h
      exact hs.unmapArea (List.mem_of_find?_eq_some ha)

lemma unmapArea_mapped {grant : ℕ → Grant} {m : ℕ} (hw : a.InWindow) (hio : a.io = false)
    (hg : s.Fresh grant) (hm : m ≤ a.size / pageSize) (hfree : ∀ q, a.Covers q → s.pte q = none)
    (h : Mapped { s with areas := areas } t a.start grant 0 m) (htables : t.pd = s.pd ∧ t.pt = s.pt) :
    t.unmapArea { a with size := m * pageSize } = { s with areas := areas } := by
  have hlt : a.start + (0 + m) * pageSize ≤ 2 ^ 64 := by
    refine le_trans (Nat.add_le_add_left ?_ _) hw.end_le
    exact Nat.mul_le_mul_right _ (by omega)
  have hu := unmapFrom_unmapped (s := t) (n := m) a.io hw.start hlt
  have hdiv : m * pageSize / pageSize = m := Nat.mul_div_cancel _ (by decide)
  simp only [VmState.unmapArea, hdiv]
  rw [Nat.zero_add] at hu
  have hfree' : ∀ q, a.start / pageSize + 0 ≤ q → q < a.start / pageSize + m → s.pte q = none :=
    fun q h₁ h₂ => hfree q (hw.covers_iff.2 ⟨h₁, by omega⟩)
  have hkeep := unmapFrom_tables a.start a.io m 0 t
  rcases hr : unmapFrom a.start a.io m 0 t with ⟨areas', pd', pt', pte', taken'⟩
  rw [hr] at hu hkeep
  congr 1
  · exact hu.areas.trans h.areas
  · exact hkeep.1.trans htables.1
  · exact hkeep.2.trans htables.2
  · funext q
    by_cases hq : a.start / pageSize + 0 ≤ q ∧ q < a.start / pageSize + m
    · exact (hu.inside q hq.1 hq.2).trans (hfree' q hq.1 hq.2).symm
    · exact (hu.outside q (by omega)).trans (h.outside q (by omega))
  · ext f
    rw [hu.taken f, h.taken f]
    constructor
    · rintro ⟨hf | ⟨j, h₁, h₂, rfl⟩, hkeep⟩
      · exact hf
      · exact absurd ⟨(hg.unused j _ (Grant.mem_frames (h.granted j h₁ h₂))).2, hio, a.start / pageSize + j, by omega,
          by omega, h.inside j h₁ h₂⟩ hkeep
    · intro hf
      refine ⟨.inl hf, ?_⟩
      rintro ⟨-, -, q, h₁, h₂, hq⟩
      obtain ⟨j, rfl⟩ := Nat.exists_eq_add_of_le h₁
      have hj := h.inside j (Nat.zero_le _) (by omega)
      rw [Nat.add_zero, hj] at hq
      have hgrant := h.granted j (Nat.zero_le _) (by omega)
      rw [Option.some.inj hq] at hgrant
      exact (hg.unused j f (Grant.mem_frames hgrant)).1 (.inl hf)

lemma VmInv.mapped_all {grant : ℕ → Grant} (hs : s.VmInv) (hsplit : s.areas = front ++ back)
    (hnew : Spaced (front ++ a :: back)) (hio : a.io = false) (hg : s.Fresh grant)
    (h : Mapped { s with areas := front ++ a :: back } t a.start grant 0 (a.size / pageSize)) :
    t.VmInv ∧ ∀ q, a.Covers q → (t.pte q).isSome := by
  have hw := hnew.window a (by simp)
  have hin : ∀ q, a.Covers q → ∃ j, q = a.start / pageSize + j ∧ j < a.size / pageSize ∧
      (grant j).page = some (grant j).frame ∧ t.pte q = some (grant j).frame := by
    intro q hq
    obtain ⟨h₁, h₂⟩ := hw.covers_iff.1 hq
    obtain ⟨j, rfl⟩ := Nat.exists_eq_add_of_le h₁
    have hj : j < a.size / pageSize := by omega
    exact ⟨j, rfl, hj, h.granted j (Nat.zero_le _) hj, h.inside j (Nat.zero_le _) hj⟩
  have hsome : ∀ q, a.Covers q → (t.pte q).isSome := by
    intro q hq
    obtain ⟨j, -, -, -, hj⟩ := hin q hq
    rw [hj]
    rfl
  refine ⟨hs.add hsplit hnew h.areas hsome (fun q hq => ?_) (fun f => ?_) fun _ p f hp hf => ?_, hsome⟩
  · refine h.outside q ?_
    rw [hw.covers_iff] at hq
    omega
  · rw [h.taken f]
    refine or_congr_right ⟨?_, ?_⟩
    · rintro ⟨j, -, hj, rfl⟩
      exact ⟨hio, a.start / pageSize + j, hw.covers_iff.2 ⟨by omega, by omega⟩,
        h.inside j (Nat.zero_le _) hj⟩
    · rintro ⟨-, q, hq, hf⟩
      obtain ⟨j, -, hj, -, hpte⟩ := hin q hq
      exact ⟨j, Nat.zero_le _, hj, Option.some.inj (hf.symm.trans hpte)⟩
  · obtain ⟨i, rfl, -, hi, hpte⟩ := hin p hp
    cases hf.symm.trans hpte
    have hnew' := hg.unused i _ (Grant.mem_frames hi)
    refine ⟨fun hf => hnew'.1 (.inl hf), hnew'.2, fun q hq hqf => ?_⟩
    obtain ⟨j, rfl, -, hj, hpte'⟩ := hin q hq
    have hij := Option.some.inj (hqf.symm.trans hpte')
    rw [hg.once i j _ (Grant.mem_frames hi) (Grant.mem_frames (hij ▸ hj))]

/-- The pages and the tables for an area of this size all can be had, or no table is made. -/
def TablesFit (s : VmState) (size : ℕ) (grant : ℕ → Grant) : Prop :=
  ∀ a areas, allocArea s.areas size false = some (a, areas) →
    s.Supplied a.start grant 0 (a.size / pageSize) ∨ s.Spared a.start grant 0 (a.size / pageSize)

lemma VmInv.vmalloc {node : Bool} {grant : ℕ → Grant} (hs : s.VmInv) (hg : s.Fresh grant)
    (hfit : size ≠ 0 → node = true → AreaFits s.areas size ∧ s.TablesFit size grant) : ∃ r t, s.vmalloc size node grant = .ok (r, t) ∧
      (r = 0 ∧ t = s ∨ r ≠ 0 ∧ t.VmInv ∧ t.Holds r size) := by
  rw [VmState.vmalloc]
  split
  · exact ⟨0, s, rfl, .inl ⟨rfl, rfl⟩⟩
  next hnode =>
  rw [not_or, Bool.not_eq_false] at hnode
  obtain ⟨hfit, htables⟩ := hfit hnode.1 hnode.2
  rcases allocArea_some false hs.spaced hfit.last with
    hnone | ⟨a, front, back, hsplit, hsome, hnew, hsize, hio⟩
  · rw [hnone]
    exact ⟨0, s, rfl, .inl ⟨rfl, rfl⟩⟩
  have hw := hnew.window a (by simp)
  have hfree : ∀ q, a.Covers q → s.pte q = none := fun q => hs.unmapped hsplit hnew
  obtain ⟨t, m, hmap, -, hm, hmapped⟩ := mapPages_mapped grant (k := 0)
    (n := a.size / pageSize) (s := { s with areas := front ++ a :: back }) hw.start hw.end_le
    fun j _ hj => hfree _ (hw.covers_iff.2 ⟨by omega, by omega⟩)
  simp only [hsome, hmap]
  split
  · next hfull =>
    subst hfull
    have hpos : a.start ≠ 0 := by
      have := hw.first
      simp only [vmallocStart] at this
      omega
    obtain ⟨hinv, hcov⟩ := hs.mapped_all hsplit hnew hio hg hmapped
    refine ⟨a.start, t, rfl, .inr ⟨hpos, hinv, holds_of_covers (a := a) ?_ hw le_rfl ?_ hcov⟩⟩
    · rw [hmapped.areas]
      simp
    · have := hfit.le_alignUp
      omega
  · next hpart =>
    refine ⟨0, _, rfl, .inl ⟨rfl, ?_⟩⟩
    have hsame : t.pd = s.pd ∧ t.pt = s.pt := by
      rcases htables a _ hsome with h | h
      · exact absurd ((mapPages_supplied (s := { s with areas := front ++ a :: back }) h hmap).trans (Nat.zero_add _)) hpart
      · exact mapPages_spared (s := { s with areas := front ++ a :: back }) h hmap
    rw [unmapArea_mapped hw hio hg (by omega) hfree hmapped hsame]
    have hnot : a ∉ front := fun ha =>
      (List.nodup_cons.1 (List.nodup_middle.1 hnew.nodup)).1 (List.mem_append_left _ ha)
    simp [List.erase_append_right _ hnot, ← hsplit]

lemma VmInv.ioremap {phys r : ℕ} {node : Bool} {grant : ℕ → Grant} (hs : s.VmInv)
    (hfit : node = true → AreaFits s.areas (size + phys % pageSize))
    (h : s.ioremap phys size node grant = .ok (r, t)) :
    r = 0 ∧ t = s ∨ t.VmInv ∧ t.Holds r size := by
  rw [VmState.ioremap] at h
  split at h
  · cases h
    exact .inl ⟨rfl, rfl⟩
  next hnode =>
  have hfit := hfit (by simpa using hnode)
  have hsum : (size + phys % pageSize) % 2 ^ 64 = size + phys % pageSize := by
    have := hfit.rounded
    exact Nat.mod_eq_of_lt (by simp only [pageSize] at *; omega)
  rw [hsum] at h
  have hup := dvd_alignUp (size + phys % pageSize)
  have hle := hfit.le_alignUp
  have hlast := hfit.last
  rw [EndFits] at hlast
  generalize alignUp (size + phys % pageSize) pageSize = len at h hup hle hlast
  have hlen : len < 2 ^ 63 := by
    have hcur : vmallocStart ≤ cursorAfter vmallocStart s.areas := hs.spaced.le_cursorAfter
    simp only [vmallocStart] at hcur hlast
    omega
  have halign : alignUp len pageSize = len := by
    have := (alignUp_spec (x := len) (k := 12) (by decide) (by omega)).2
    exact le_antisymm (alignUp_le le_rfl hup hlen) this
  rcases allocArea_some true hs.spaced
      (show EndFits s.areas len by rwa [EndFits, halign]) with
    hnone | ⟨a, front, back, hsplit, hsome, hnew, hsize, hio⟩
  · rw [hnone] at h
    cases h
    exact .inl ⟨rfl, rfl⟩
  have hw := hnew.window a (by simp)
  rw [halign] at hsize
  simp only [hsome] at h
  rw [← hsize] at h
  split at h
  · cases h
  next hmap =>
  cases h
  obtain ⟨hareas, htaken, hin, hout⟩ := mapIo_mapped hw.start hw.end_le hmap
  have hcov : ∀ q, a.Covers q → (t.pte q).isSome := by
    intro q hq
    obtain ⟨h₁, h₂⟩ := hw.covers_iff.1 hq
    obtain ⟨j, rfl⟩ := Nat.exists_eq_add_of_le h₁
    exact hin j (Nat.zero_le _) (by omega)
  refine .inr ⟨hs.add hsplit hnew hareas hcov (fun q hq => hout q ?_) (fun f => ?_) ?_, ?_⟩
  · rw [hw.covers_iff] at hq
    omega
  · simp [htaken, hio]
  · simp [hio]
  · have hr : (a.start + phys % pageSize) % 2 ^ 64 = a.start + phys % pageSize := by
      have := hw.last
      exact Nat.mod_eq_of_lt (by simp only [pageSize, vmallocEnd] at *; omega)
    refine holds_of_covers (a := a) ?_ hw ?_ ?_ hcov
    · rw [hareas]
      simp
    · omega
    · omega

def Fits (s : VmState) : VmCall → Prop
  | .vmalloc size node grant => size ≠ 0 → node = true → AreaFits s.areas size ∧ s.TablesFit size grant
  | .ioremap phys size node _ => node = true → AreaFits s.areas (size + phys % pageSize)
  | _ => True

structure VmallocSafe (allowed : VmState → VmCall → Prop) (s : VmState) : Prop where
  sorted : s.areas.Pairwise fun a b => a.start < b.start
  guards : ∀ a ∈ s.areas, vmallocStart ≤ a.start ∧ a.start + a.size ≤ vmallocEnd ∧
    s.pte (a.start / pageSize - 1) = none ∧ s.pte ((a.start + a.size) / pageSize) = none
  vmalloc : ∀ size node grant, size < 2 ^ 64 → s.Fresh grant → allowed s (.vmalloc size node grant) →
    ∃ r t, s.vmalloc size node grant = .ok (r, t) ∧ (r ≠ 0 → t.Holds r size) ∧ (r = 0 → t = s)
  ioremap : ∀ phys size node grant r t, phys < 2 ^ 64 → size < 2 ^ 64 → s.Fresh grant →
    allowed s (.ioremap phys size node grant) → s.ioremap phys size node grant = .ok (r, t) →
    r ≠ 0 → t.Holds r size

lemma VmInv.step {call : VmCall} (hs : s.VmInv) (hfit : s.Fits call) (h : VmStep s call t) :
    t.VmInv := by
  cases h with
  | vmalloc _ hg h =>
    obtain ⟨r, u, hu, hr⟩ := hs.vmalloc hg hfit
    cases h.symm.trans hu
    rcases hr with ⟨-, rfl⟩ | ⟨-, ht, -⟩
    · exact hs
    · exact ht
  | vfree _ h => exact hs.release h
  | ioremap _ _ _ h =>
    rcases hs.ioremap hfit h with ⟨-, rfl⟩ | ⟨ht, -⟩
    · exact hs
    · exact ht
  | iounmap _ h => exact hs.release h

lemma VmInv.guard (hs : s.VmInv) (ha : a ∈ s.areas)
    (hq : q * pageSize + pageSize = a.start ∨ q * pageSize = a.start + a.size) :
    s.pte q = none := by
  by_contra hne
  obtain ⟨b, hb, hbq⟩ := (hs.mapped q).1 (Option.isSome_iff_ne_none.2 hne)
  by_cases hab : a = b
  · subst hab
    have := (hs.spaced.window a ha).covers.1 hbq
    simp only [pageSize] at *
    omega
  · exact hs.spaced.not_covers ha hb hab (by omega) (by simp only [pageSize] at *; omega) hbq

lemma VmInv.safe (hs : s.VmInv) : VmallocSafe Fits s where
  sorted := hs.spaced.before.imp fun h => by
    simp only [VmArea.Before, pageSize] at h
    omega
  guards a ha := by
    have hw := hs.spaced.window a ha
    have hfirst := hw.first
    have hlast := hw.last
    obtain ⟨⟨k, hk⟩, n, hn⟩ := And.intro hw.start hw.size
    refine ⟨by omega, by omega, hs.guard ha (.inl ?_), hs.guard ha (.inr ?_)⟩
    · simp only [hk, vmallocStart, pageSize] at *
      omega
    · simp only [hk, hn, pageSize]
      omega
  vmalloc size node grant _ hg hfit := by
    obtain ⟨r, t, h, hr⟩ := hs.vmalloc hg hfit
    refine ⟨r, t, h, fun hne => ?_, fun h0 => ?_⟩
    · exact hr.elim (fun h0 => absurd h0.1 hne) fun h => h.2.2
    · exact hr.elim And.right fun h => absurd h0 h.1
  ioremap phys size node grant r t _ _ _ hfit h hr :=
    (hs.ioremap hfit h).elim (fun h0 => absurd h0.1 hr) And.right

lemma vmInv_init : VmInv {} where
  spaced := ⟨List.Pairwise.nil, by simp⟩
  mapped := by simp
  held := by simp
  zero := by simp
  once := by simp

theorem reachable_vmallocSafe (h : (vmallocSystem.guarded Fits).Reachable s) : VmallocSafe Fits s :=
  (h.invariant (I := VmInv) (fun _ h => h ▸ vmInv_init) fun _ _ _ hs h => hs.step h.1 h.2).safe

section Runs

def supply (l : List Grant) (k : ℕ) : Grant := l.getD k {}

lemma fresh_supply (l : List Grant) (hl : (l.flatMap Grant.frames).Nodup)
    (hs : ∀ f ∈ l.flatMap Grant.frames, ¬ s.Uses f ∧ f ≠ 0) : s.Fresh (supply l) := by
  have hmem {k f : ℕ} (hf : f ∈ (supply l k).frames) : ∃ hk : k < l.length, f ∈ l[k].frames := by
    by_cases hk : k < l.length
    · rw [supply, List.getD_eq_getElem _ _ hk] at hf
      exact ⟨hk, hf⟩
    · rw [supply, List.getD_eq_default _ _ (not_lt.1 hk)] at hf
      exact absurd hf List.not_mem_nil
  obtain ⟨hinner, hapart⟩ := List.nodup_flatMap.1 hl
  refine ⟨fun k f hf => ?_, fun k m f hf hf' => ?_, fun k => ?_⟩
  · obtain ⟨hk, hf⟩ := hmem hf
    exact hs f (List.mem_flatMap.2 ⟨_, List.getElem_mem hk, hf⟩)
  · obtain ⟨hk, hf⟩ := hmem hf
    obtain ⟨hm, hf'⟩ := hmem hf'
    rcases lt_trichotomy k m with hlt | heq | hlt
    · exact absurd hf' (List.pairwise_iff_getElem.1 hapart k m hk hm hlt hf)
    · exact heq
    · exact absurd hf (List.pairwise_iff_getElem.1 hapart m k hm hk hlt hf')
  · by_cases hk : k < l.length
    · rw [supply, List.getD_eq_getElem _ _ hk]
      exact hinner _ (List.getElem_mem hk)
    · rw [supply, List.getD_eq_default _ _ (not_lt.1 hk)]
      exact List.nodup_nil

lemma fresh_init (l : List Grant) (hl : (l.flatMap Grant.frames).Nodup) (hz : 0 ∉ l.flatMap Grant.frames) :
    ({} : VmState).Fresh (supply l) :=
  fresh_supply l hl fun f hf => ⟨by simp [Uses], fun hf0 => hz (hf0 ▸ hf)⟩

def firstPage : ℕ := vmallocStart + pageSize

def twoPages : VmState :=
  { areas := [⟨firstPage, 8192, false⟩]
    pd := nextLevel (fun _ => none) (firstPage / pageSize / 512 ^ 2) (some 8)
    pt := nextLevel (fun _ => none) (firstPage / pageSize / 512) (some 9)
    pte := update (update (fun _ => none) (firstPage / pageSize) (some 7))
      (firstPage / pageSize + 1) (some 10)
    taken := {10, 7} }

lemma vmalloc_twoPages : VmState.vmalloc {} 8192 true (supply [⟨some 7, some 8, some 9⟩, ⟨some 10, none, none⟩]) =
    .ok (firstPage, twoPages) :=
  rfl

lemma twoPages_uses {f : ℕ} (h : twoPages.Uses f) : f = 7 ∨ f = 8 ∨ f = 9 ∨ f = 10 := by
  have hmade {i j g : ℕ} (h : nextLevel (fun _ => none) i (some g) j = some f) : g = f := by
    rw [nextLevel, if_neg (by simp)] at h
    by_cases hj : j = i
    · rw [hj, update_self] at h
      exact Option.some.inj h
    · rw [update_of_ne hj] at h
      cases h
  rcases h with h | ⟨i, h | h⟩
  · rcases Finset.mem_insert.1 h with h | h
    · exact .inr (.inr (.inr h))
    · exact .inl (Finset.mem_singleton.1 h)
  · exact .inr (.inl (hmade h).symm)
  · exact .inr (.inr (.inl (hmade h).symm))

lemma alloc_first : allocArea [] 8192 false = some (⟨firstPage, 8192, false⟩, [⟨firstPage, 8192, false⟩]) := rfl

def laterPage : ℕ := vmallocStart + 5 * pageSize

lemma alloc_second : allocArea twoPages.areas 8192 false = some (⟨laterPage, 8192, false⟩,
    [⟨firstPage, 8192, false⟩, ⟨laterPage, 8192, false⟩]) := by
  decide

lemma vmalloc_second : VmState.vmalloc twoPages 8192 true (supply [⟨some 11, none, none⟩]) =
    .ok (0, { twoPages with
      pte := update (update twoPages.pte (laterPage / pageSize) (some 11)) (laterPage / pageSize) none
      taken := (insert 11 twoPages.taken).erase 11 }) := by
  rw [VmState.vmalloc, if_neg (by decide), alloc_second]
  rfl

/-- An area of two pages that also gets its tables, and one that is refused its second page, of which nothing remains. -/
def vmallocRun : { s // (vmallocSystem.guarded Fits).Reachable s } :=
  have h₁ : (vmallocSystem.guarded Fits).Reachable twoPages :=
    .step (.vmalloc 8192 true (supply [⟨some 7, some 8, some 9⟩, ⟨some 10, none, none⟩])) (.init rfl)
      ⟨fun _ _ => ⟨⟨by decide, show _ < _ by decide⟩, fun a areas h => by
        cases alloc_first.symm.trans h
        refine .inl fun j _ hj => ?_
        have hj : j < 2 := hj
        interval_cases j
        · exact ⟨rfl, .inr (.inl rfl), .inr (.inl rfl)⟩
        · exact ⟨rfl, .inr (.inr ⟨0, le_rfl, one_pos, rfl⟩), .inr (.inr ⟨0, le_rfl, one_pos, rfl⟩)⟩⟩,
      .vmalloc (by decide) (fresh_init _ (by decide) (by decide)) vmalloc_twoPages⟩
  have h₂ : (vmallocSystem.guarded Fits).Reachable _ :=
    .step (.vmalloc 8192 true (supply [⟨some 11, none, none⟩])) h₁
      ⟨fun _ _ => ⟨⟨by decide, show _ < _ by decide⟩, fun a areas h => by
        cases alloc_second.symm.trans h
        refine .inr fun j _ hj hp _ => ?_
        have hj : j < 2 := hj
        interval_cases j
        · exact .inl ⟨rfl, rfl⟩
        · exact absurd (hp 1 (Nat.zero_le 1) le_rfl) (by decide)⟩,
      .vmalloc (by decide) (fresh_supply _ (by decide) fun f hf => by
        obtain rfl := List.mem_singleton.1 hf
        exact ⟨fun h => absurd (twoPages_uses h) (by decide), by decide⟩) vmalloc_second⟩
  ⟨_, h₂⟩

theorem reachable_vmallocSafe_short : vmallocRun.1.areas = [⟨firstPage, 8192, false⟩] ∧
    vmallocRun.1.pte (firstPage / pageSize + 1) = some 10 ∧ vmallocRun.1.pte (laterPage / pageSize) = none ∧
      11 ∉ vmallocRun.1.taken ∧ VmallocSafe Fits vmallocRun.1 :=
  ⟨rfl, rfl, rfl, by decide, reachable_vmallocSafe vmallocRun.2⟩

theorem not_vmallocSafe_wrap :
    (¬ ∀ s, vmallocSystem.Reachable s → VmallocSafe (fun _ _ => True) s) ∧
    ∃ grant t, ({} : VmState).Fresh grant ∧ VmState.vmalloc {} 8192 true grant = .ok (0, t) ∧
      ¬ VmState.Uses {} 8 ∧ t.Uses 8 := by
  refine ⟨fun h => ?_, ?_⟩
  · obtain ⟨r, t, hr, hholds, -⟩ := (h {} (.init rfl)).vmalloc (2 ^ 64 - 1) true (supply [])
      (by decide) (fresh_init _ (by decide) (by decide)) trivial
    have hwrap : VmState.vmalloc {} (2 ^ 64 - 1) true (supply []) =
        .ok (vmallocStart + pageSize, { areas := [⟨vmallocStart + pageSize, 0, false⟩] }) := rfl
    cases hwrap.symm.trans hr
    obtain ⟨a, ha, h₁, h₂, -⟩ := hholds (by decide)
    obtain rfl := List.mem_singleton.1 ha
    revert h₂
    decide
  · refine ⟨supply [⟨some 7, some 8, some 9⟩], _, fresh_init _ (by decide) (by decide), rfl, by simp [Uses], ?_⟩
    exact .inr ⟨firstPage / pageSize / 512 ^ 2, .inl rfl⟩

end Runs

end VmState

end MyOS.Memory
