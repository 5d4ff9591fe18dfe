import MyOS.Memory.FaultLedger
import MyOS.Memory.ForkLedger

/-! The machine as a whole: what a call does to one address space is not seen by the others. -/

namespace MyOS.Memory

open Library Library.Dyadic Function

/-- The page tables lead from an address to a page, or did so when a CPU cached the entry. -/
def Mm.Maps (mm : Mm) (va : ℕ) (pte : Pte) : Prop :=
  va < 2 ^ 47 ∧ mm.pml4.get va = some pte ∨ isUserAddress va = true ∧ mm.tlb (va / pageSize) = some pte

namespace World

def own (w : World) (i : ℕ) : Mm := if i ∈ w.live then w.mm i else blank

def total (w : World) (l : List ℕ) (count : Pml4 → ℕ → ℕ) : ℕ → ℕ := (l.map fun i => count (w.mm i).pml4).sum

def others (w : World) (i : ℕ) (count : Pml4 → ℕ → ℕ) : ℕ → ℕ := w.total (w.live.erase i) count

def tables (w : World) : ℕ → ℕ := w.total w.live (tableCount 4)

def mappings (w : World) : ℕ → ℕ := w.total w.live (frameCount 4)

def byte (w : World) (i va : ℕ) : UInt8 := if va < 2 ^ 47 then (w.own i).byte w.machine va else 0

structure Good (w : World) : Prop where
  nodup : w.live.Nodup
  ledger : FrameLedger False w.machine.pmm w.machine.kernel w.tables w.mappings
  coherent : ∀ i, (w.own i).Coherent
  owned : ∀ i, ∀ va < 2 ^ 47, ∀ pte, (w.own i).pml4.get va = some pte → pte.writable = true →
    w.mappings pte.frame = 1

def set (w : World) (l : List ℕ) (i : ℕ) (m : Machine) (mm : Mm) : World := ⟨m, update w.mm i mm, l⟩

variable {w w' : World} {i j lo stop : ℕ} {l : List ℕ} {m m₀ : Machine} {mm mm₀ : Mm}
  {count : Pml4 → ℕ → ℕ}

lemma frameCount_blank : frameCount 4 blank.pml4 = 0 := frameCount_emptyTable 0

lemma byte_blank {va : ℕ} : blank.byte m va = 0 := by
  have hnone : blank.pml4.get va = none := lookup_emptyTable
  rw [Mm.byte, hnone, Option.elim_none]

lemma own_eq (hi : i ∈ w.live) : w.own i = w.mm i := if_pos hi

lemma total_eq (hi : i ∈ w.live) : w.total w.live count = w.others i count + count (w.mm i).pml4 := by
  rw [add_comm]
  exact (List.sum_map_erase _ hi).symm

lemma mappings_eq (w : World) (i : ℕ) :
    w.mappings = w.others i (frameCount 4) + frameCount 4 (w.own i).pml4 := by
  by_cases hi : i ∈ w.live
  · rw [own_eq hi, mappings, total_eq hi]
  · rw [own, if_neg hi, frameCount_blank, others, List.erase_of_not_mem hi, add_zero, mappings]

lemma le_others (hji : j ≠ i) : frameCount 4 (w.own j).pml4 ≤ w.others i (frameCount 4) := by
  intro f
  rw [own]
  split_ifs with hj
  · rw [others, total, Sums.sum_map_apply]
    exact Sums.single_le_sum ((List.mem_erase_of_ne hji).2 hj) fun j => frameCount 4 (w.mm j).pml4 f
  · rw [frameCount_blank]
    exact Nat.zero_le _

lemma le_mappings (j : ℕ) : frameCount 4 (w.own j).pml4 ≤ w.mappings := by
  rw [mappings_eq w j]
  exact le_add_self

section Set

variable (hl : l.erase i = w.live.erase i) (hi : i ∈ l)
include hl hi

lemma own_set (j : ℕ) : (w.set l i m mm).own j = if j = i then mm else w.own j := by
  split_ifs with hji
  · rw [hji, own_eq (by exact hi)]
    exact update_self ..
  · have hmem : j ∈ l ↔ j ∈ w.live := by rw [← List.mem_erase_of_ne hji, hl, List.mem_erase_of_ne hji]
    simp only [own, set, hmem, update_of_ne hji]

lemma total_set (hn : l.Nodup) : (w.set l i m mm).total l count = w.others i count + count mm.pml4 := by
  have hself : (w.set l i m mm).mm i = mm := update_self ..
  have hrest : (w.set l i m mm).others i count = w.others i count := by
    rw [others, others, ← hl]
    refine congrArg List.sum (List.map_congr_left fun j hj => ?_)
    have hj : (w.set l i m mm).mm j = w.mm j := update_of_ne (hn.mem_erase_iff.1 hj).1 ..
    rw [hj]
  have htotal : _ = (w.set l i m mm).others i count + count ((w.set l i m mm).mm i).pml4 := total_eq hi
  rwa [hrest, hself] at htotal

end Set

lemma Good.step {O c c' tabs : ℕ → ℕ} (moved : ℕ → Prop) (h : w.Good) (hn : w'.live.Nodup)
    (hl : FrameLedger False w'.machine.pmm w'.machine.kernel w'.tables w'.mappings)
    (hc : w.mappings = O + c) (hc' : w'.mappings = O + c') (hfew : ∀ f, c f = 0 → 0 < O f → c' f = 0)
    (hrest : ∀ j, ¬ moved j → w'.own j = w.own j ∧ frameCount 4 (w.own j).pml4 ≤ O)
    (hcoh : ∀ j, moved j → (w'.own j).Coherent)
    (howned : ∀ j, moved j → ∀ va < 2 ^ 47, ∀ pte, (w'.own j).pml4.get va = some pte → pte.writable = true →
      w'.mappings pte.frame = 1)
    (hb : SameBytes tabs O w.machine.pmm w'.machine.pmm) :
    w'.Good ∧ ∀ j, ¬ moved j → w'.byte j = w.byte j := by
  refine ⟨⟨hn, hl, fun j => ?_, fun j va hva pte hg hw => ?_⟩, fun j hj => ?_⟩
  · by_cases hj : moved j
    · exact hcoh j hj
    · rw [(hrest j hj).1]
      exact h.coherent j
  · by_cases hj : moved j
    · exact howned j hj va hva pte hg hw
    · obtain ⟨he, hle⟩ := hrest j hj
      rw [he] at hg
      have hone := h.owned j va hva pte hg hw
      have hpos := (frameCount_get hva hg).trans_le (hle _)
      have hzero := hfew pte.frame
      rw [hc, Pi.add_apply] at hone
      rw [hc', Pi.add_apply]
      omega
  · obtain ⟨he, hle⟩ := hrest j hj
    funext va
    rw [byte, byte, he]
    split_ifs with hva
    · exact byte_shared hb hle hva (.inl rfl)
    · rfl

section Moves

variable (h : w.Good)
include h

lemma Good.kept (hk : Kept w.tables w.mappings m₀ m) (hm : m₀.pmm = w.machine.pmm) :
    Good { w with machine := m } ∧ byte { w with machine := m } = w.byte := by
  have hstep : Good { w with machine := m } ∧ ∀ j, ¬ False → byte { w with machine := m } j = w.byte j :=
    h.step (fun _ => False) h.nodup hk.ledger (add_zero _).symm (add_zero _).symm (fun _ hz _ => hz)
      (fun j _ => ⟨rfl, le_mappings j⟩) (fun _ => False.elim) (fun _ => False.elim) (hm ▸ hk.bytes)
  exact ⟨hstep.1, funext fun j => hstep.2 j not_false⟩

lemma Good.served (hi : i ∈ l) (hn : l.Nodup) (hl : l.erase i = w.live.erase i)
    (hs : Served lo stop (w.others i (tableCount 4)) (w.others i (frameCount 4)) m₀ m mm₀ mm)
    (hm : m₀.pmm = w.machine.pmm) (h₀ : mm₀.pml4 = (w.own i).pml4) (hc : mm.Coherent) :
    (w.set l i m mm).Good ∧ (w.set l i m mm).byte =
      update w.byte i fun va => if lo ≤ va ∧ va < stop then 0 else w.byte i va := by
  have hold := mappings_eq w i
  have hmap : (w.set l i m mm).mappings = w.others i (frameCount 4) + frameCount 4 mm.pml4 := total_set hl hi hn
  have hself : (w.set l i m mm).own i = mm := (own_set hl hi i).trans (if_pos rfl)
  rw [← h₀] at hold
  have hstep : (w.set l i m mm).Good ∧ ∀ j, ¬ j = i → (w.set l i m mm).byte j = w.byte j := by
    refine h.step (· = i) hn ?_ hold hmap (fun f hz _ => ?_) (fun j hj => ⟨?_, le_others hj⟩) ?_ ?_ (hm ▸ hs.bytes)
    · rw [hmap, tables, show (w.set l i m mm).live = l from rfl, total_set hl hi hn]
      exact hs.ledger
    · have := hs.counts f
      omega
    · rw [own_set hl hi, if_neg hj]
    · rintro j rfl
      rwa [hself]
    · rintro j rfl va hva pte hg hw
      rw [hself] at hg
      rw [hmap]
      rcases hs.entry va hva pte hg hw with hsame | hnew
      · have hone := h.owned j va hva pte (by rw [Pml4.get, ← h₀]; exact hsame) hw
        have hpos := frameCount_get hva hsame
        have hpos' := frameCount_get hva hg
        have := hs.counts pte.frame
        rw [hold, Pi.add_apply] at hone
        rw [Pi.add_apply]
        omega
      · exact hnew
  refine ⟨hstep.1, funext fun j => ?_⟩
  by_cases hj : j = i
  · subst hj
    rw [update_self]
    funext va
    have hread : (w.own j).byte w.machine va = mm₀.byte m₀ va := by rw [Mm.byte, Mm.byte, hm, h₀]
    by_cases hva : va < 2 ^ 47
    · simp only [byte, hself, if_pos hva, hread]
      exact hs.byte va hva
    · simp only [byte, if_neg hva, ite_self]
  · rw [update_of_ne hj, hstep.2 j hj]

lemma Good.remove (hk : Kept (w.others i (tableCount 4)) (w.others i (frameCount 4)) m₀ m)
    (hm : m₀.pmm = w.machine.pmm) :
    (w.remove i m).Good ∧ (w.remove i m).byte = update w.byte i fun _ => 0 := by
  have hself : (w.remove i m).own i = blank := if_neg h.nodup.not_mem_erase
  have hstep : (w.remove i m).Good ∧ ∀ j, ¬ j = i → (w.remove i m).byte j = w.byte j := by
    refine h.step (· = i) (h.nodup.erase i) hk.ledger (mappings_eq w i) (add_zero _).symm (fun _ _ _ => rfl)
      (fun j hj => ⟨?_, le_others hj⟩) ?_ ?_ (hm ▸ hk.bytes)
    · have hmem : j ∈ (w.remove i m).live ↔ j ∈ w.live := List.mem_erase_of_ne hj
      simp only [own, hmem]
      rfl
    · rintro j rfl va pte _ hs
      rw [hself] at hs
      cases hs
    · rintro j rfl va _ pte hg
      rw [hself] at hg
      cases hg.symm.trans lookup_emptyTable
  refine ⟨hstep.1, funext fun j => ?_⟩
  by_cases hj : j = i
  · subst hj
    rw [update_self]
    funext va
    rw [byte, hself, byte_blank, ite_self]
  · rw [update_of_ne hj, hstep.2 j hj]

lemma Good.fork {parent child : Mm} (hi : i ∈ w.live) (hj : j ∉ w.live)
    (hf : Forked (w.others i (tableCount 4)) (w.others i (frameCount 4)) m₀ m (w.mm i) parent child)
    (hm : m₀.pmm = w.machine.pmm) : ((w.put i m parent).add j m child).Good ∧
      ((w.put i m parent).add j m child).byte = update w.byte j (w.byte i) := by
  have hlive : (j :: w.live).erase j = w.live.erase j := by rw [List.erase_cons_head, List.erase_of_not_mem hj]
  have hown : ∀ k, ((w.put i m parent).add j m child).own k =
      if k = j then child else if k = i then parent else w.own k := fun k =>
    (own_set (w := w.put i m parent) hlive List.mem_cons_self k).trans (by rw [← own_set rfl hi]; rfl)
  have htotal : ∀ count, ((w.put i m parent).add j m child).total (j :: w.live) count =
      w.others i count + (count parent.pml4 + count child.pml4) := by
    intro count
    have hput : (w.put i m parent).others j count = w.others i count + count parent.pml4 := by
      rw [← total_set rfl hi h.nodup, others, show (w.put i m parent).live = w.live from rfl, List.erase_of_not_mem hj]
      rfl
    rw [← add_assoc, ← hput]
    exact total_set (w := w.put i m parent) hlive List.mem_cons_self (List.nodup_cons.2 ⟨hj, h.nodup⟩)
  have hne : i ≠ j := ne_of_mem_of_not_mem hi hj
  have hchild : ((w.put i m parent).add j m child).own j = child := (hown j).trans (if_pos rfl)
  have hparent : ((w.put i m parent).add j m child).own i = parent := by rw [hown, if_neg hne, if_pos rfl]
  have hold := mappings_eq w i
  rw [own_eq hi] at hold
  have hb := hf.bytes
  rw [hm] at hb
  have hbytes : SameBytes (w.others i (tableCount 4)) (w.others i (frameCount 4)) w.machine.pmm m.pmm :=
    hb.mono fun f hf => by
      rw [Pi.add_apply]
      omega
  have hshared : ∀ {o : Option Pte} {pte}, o.map Pte.shared = some pte → ¬ pte.writable = true := by
    intro o pte ho
    obtain ⟨old, -, rfl⟩ := Option.map_eq_some_iff.1 ho
    rw [old.shared_writable]
    exact Bool.false_ne_true
  have hstep : ((w.put i m parent).add j m child).Good ∧
      ∀ k, ¬ (k = i ∨ k = j) → ((w.put i m parent).add j m child).byte k = w.byte k := by
    refine h.step (fun k => k = i ∨ k = j) (List.nodup_cons.2 ⟨hj, h.nodup⟩) ?_ hold (htotal _) (fun f hz _ => ?_)
      (fun k hk => ⟨?_, le_others fun hki => hk (.inl hki)⟩) ?_ ?_ hbytes
    · have hl := hf.ledger
      rwa [add_assoc, add_assoc, ← htotal, ← htotal] at hl
    · have hp := congrFun hf.counts f
      have hc : frameCount 4 child.pml4 f ≤ frameCount 4 (w.mm i).pml4 f := hf.childCounts f
      rw [Pi.add_apply]
      omega
    · obtain ⟨hki, hkj⟩ := not_or.1 hk
      rw [hown, if_neg hkj, if_neg hki]
    · rintro k (rfl | rfl)
      · rw [hparent]
        exact hf.coherent (own_eq hi ▸ h.coherent k)
      · rw [hchild]
        exact hf.childCoherent
    · rintro k (rfl | rfl) va hva pte hg hw
      · rw [hparent, (hf.get va hva).1] at hg
        exact absurd hw (hshared hg)
      · rw [hchild, (hf.get va hva).2] at hg
        exact absurd hw (hshared hg)
  have hcopy : ∀ k, (∀ va < 2 ^ 47, (((w.put i m parent).add j m child).own k).pml4.get va =
      ((w.mm i).pml4.get va).map Pte.shared) → ((w.put i m parent).add j m child).byte k = w.byte i := by
    intro k hget
    funext va
    rw [byte, byte, own_eq hi]
    split_ifs with hva
    · exact byte_shared hb (fun f => Nat.le_add_left _ _) hva (.inr (hget va hva))
    · rfl
  refine ⟨hstep.1, funext fun k => ?_⟩
  by_cases hkj : k = j
  · subst hkj
    rw [update_self, hcopy k fun va hva => by rw [hchild, (hf.get va hva).2]]
  · rw [update_of_ne hkj]
    by_cases hki : k = i
    · subst hki
      exact hcopy k fun va hva => by rw [hparent, (hf.get va hva).1]
    · exact hstep.2 k (not_or.2 ⟨hki, hkj⟩)

end Moves

section Access

variable {va wa a : ℕ} {pte q : Pte} (h : w.Good)
include h

lemma Good.alone (hva : va < 2 ^ 47) (hwa : wa < 2 ^ 47) (hg : (w.own i).pml4.get va = some pte)
    (hw : pte.writable = true) (hq : (w.own j).pml4.get wa = some q) (he : q.frame = pte.frame) :
    j = i ∧ wa / pageSize = va / pageSize := by
  have hone := h.owned i va hva pte hg hw
  have hpos := frameCount_get hva hg
  have hpos' := frameCount_get hwa hq
  rw [mappings_eq w i, Pi.add_apply] at hone
  rw [he] at hpos'
  by_cases hji : j = i
  · subst hji
    exact ⟨rfl, page_eq_of_frameCount hwa hva hq hg he (by rw [he]; omega)⟩
  · have hle : frameCount 4 (w.own j).pml4 pte.frame ≤ w.others i (frameCount 4) pte.frame := le_others hji _
    omega

lemma Good.maps (hi : i ∈ w.live) (hm : (w.mm i).Maps va pte) : va < 2 ^ 47 ∧ (w.own i).pml4.get va = some pte := by
  have hc := h.coherent i
  rw [own_eq hi] at hc ⊢
  rcases hm with hm | ⟨hu, hs⟩
  · exact hm
  · exact ⟨lt_of_isUserAddress hu, (hc va pte hu hs).2⟩

lemma Good.translates (hi : i ∈ w.live) (ht : (w.mm i).Translates va pte) :
    va < 2 ^ 47 ∧ (w.own i).pml4.get va = some pte := by
  obtain ⟨-, hu, hs | hs⟩ := ht
  · exact h.maps hi (.inr ⟨hu, hs⟩)
  · exact h.maps hi (.inl ⟨lt_of_isUserAddress hu, hs⟩)

lemma Good.store (a : ℕ) (v : UInt8) : (w.store a v).Good :=
  ⟨h.nodup, h.ledger.of_eq rfl rfl rfl, h.coherent, h.owned⟩

omit h in
lemma byte_store {v : UInt8} (hne : va < 2 ^ 47 → ∀ q, (w.own i).pml4.get va = some q → q.target va ≠ a) :
    (w.store a v).byte i va = w.byte i va := by
  have hown : (w.store a v).own i = w.own i := rfl
  rw [byte, byte, hown]
  split_ifs with hva
  · rw [Mm.byte, Mm.byte]
    cases hg : (w.own i).pml4.get va with
    | none => rfl
    | some q => exact update_of_ne (hne hva q hg) ..
  · rfl

lemma Good.byte_write (v : UInt8) (hi : i ∈ w.live) (ht : (w.mm i).Translates va pte) (hw : pte.writable = true) :
    (w.store (pte.target va) v).byte = update w.byte i (update (w.byte i) va v) := by
  obtain ⟨hva, hg⟩ := h.translates hi ht
  funext j wa
  by_cases hsame : j = i ∧ wa = va
  · obtain ⟨rfl, rfl⟩ := hsame
    rw [update_self, update_self, byte, if_pos hva, Mm.byte]
    exact (congrArg (fun o => Option.elim o _ _) hg).trans (update_self ..)
  · have hright : update w.byte i (update (w.byte i) va v) j wa = w.byte j wa := by
      rw [update_apply]
      split_ifs with hji
      · subst hji
        exact update_of_ne (fun he => hsame ⟨rfl, he⟩) ..
      · rfl
    rw [hright]
    refine byte_store fun hwa q hq he => hsame ?_
    simp only [Pte.target, pageToPhys, pageSize] at he
    obtain ⟨rfl, hpage⟩ := h.alone hva hwa hg hw hq (by omega)
    simp only [pageSize] at hpage
    exact ⟨rfl, by omega⟩

lemma Good.byte_kernelWrite (v : UInt8) (ha : ∃ b ∈ w.machine.kernel, b.Contains (a / pageSize)) :
    (w.store a v).byte = w.byte := by
  obtain ⟨b, hb, hin⟩ := ha
  have hzero := h.ledger.apart hb hin
  funext i va
  refine byte_store fun hva q hq he => ?_
  have hpos := (frameCount_get hva hq).trans_le (le_mappings i q.frame)
  have hframe : q.frame = a / pageSize := by
    simp only [Pte.target, pageToPhys, pageSize] at he ⊢
    omega
  rw [hframe] at hpos
  omega

end Access

end World

end MyOS.Memory
