import MyOS.Memory.TableLedger

/-! `vmm_prune_tables` frees the tables of a range that map nothing any more, each of them once. -/

namespace MyOS.Memory

open Library.Dyadic Library.Radix

/-- Below a table of height `n + 1` there is a table in page `f` that has no present entry. The one
entry that points to it is cleared. -/
def Removes : (n : ℕ) → Tree Pte (n + 1) → ℕ → Tree Pte (n + 1) → Prop
  | 0, _, _, _ => False
  | n + 1, (t : Node (Tree Pte (n + 1))), f, t' =>
    ∃ i < width (n + 1), ∃ c : Tree Pte (n + 1), t.entry i = some c ∧
      (Node.empty ptes c = true ∧ Node.label c = f ∧ t' = t.set i none ∨
        ∃ c', Removes n c f c' ∧ t' = t.set i (some c'))

inductive FreesTables : Pmm → Pml4 → List ℕ → Pmm → Pml4 → Prop
  | nil (s : Pmm) (t : Pml4) : FreesTables s t [] s t
  | cons {s s₁ s₂ : Pmm} {t t₁ t₂ : Pml4} {f : ℕ} {fs : List ℕ} (hr : Removes 3 t f t₁)
      (hs : s.freePages f 0 = .ok s₁) (h : FreesTables s₁ t₁ fs s₂ t₂) : FreesTables s t (f :: fs) s₂ t₂

def Pml4.Covered (t : Pml4) (va : ℕ) : Prop :=
  ∀ l3 : Tree Pte 3, t.entry (digit ptes 3 (va / pageSize)) = some l3 →
    ∀ l2 : Tree Pte 2, l3.entry (digit ptes 2 (va / pageSize)) = some l2 → l2.empty ptes = false ∧
      ∀ l1 : Tree Pte 1, l2.entry (digit ptes 1 (va / pageSize)) = some l1 → l1.empty ptes = false

section Removes

variable {exact : Prop} {s s₁ s₂ : Pmm} {kernel : List Block} {tabs refs : ℕ → ℕ} {n f : ℕ} {fs gs : List ℕ}
  {t t₁ t₂ : Pml4}

lemma Removes.count {t t' : Tree Pte (n + 1)} (h : Removes n t f t') :
    tableCount (n + 1) t = tableCount (n + 1) t' + Pi.single f 1 := by
  induction n with
  | zero => exact h.elim
  | succ n ih =>
    obtain ⟨i, hi, c, hc, ⟨he, rfl, rfl⟩ | ⟨c', hr, rfl⟩⟩ := h
    · rw [tableCount_entry hi hc, tableCount_of_empty he]
    · rw [tableCount_entry hi hc, tableCount_set hi, ih hr]
      exact (add_assoc _ _ _).symm

lemma FreesTables.append (h : FreesTables s t fs s₁ t₁) (k : FreesTables s₁ t₁ gs s₂ t₂) :
    FreesTables s t (fs ++ gs) s₂ t₂ := by
  induction h with
  | nil => exact k
  | cons hr hs _ ih => exact .cons hr hs (ih k)

lemma FreesTables.count (h : FreesTables s t fs s₁ t₁) :
    ∀ f, tableCount 4 t f = tableCount 4 t₁ f + fs.count f := by
  induction h with
  | nil s t => exact fun f => (Nat.add_zero _).symm
  | @cons s s₁ s₂ t t₁ t₂ g fs hr _ _ ih =>
    intro f
    rw [hr.count, Pi.add_apply, ih, List.count_cons, Pi.single_apply, Nat.add_assoc]
    simp only [beq_iff_eq, eq_comm (a := f)]

lemma Removes.frees (hr : Removes 3 t f t₁) (h : FrameLedger exact s kernel (tabs + tableCount 4 t) refs) :
    ∃ s₁, s.freePages f 0 = .ok s₁ ∧ FrameLedger exact s₁ kernel (tabs + tableCount 4 t₁) refs := by
  rw [hr.count, ← add_assoc] at h
  obtain ⟨s₁, hs, hl, -⟩ := h.freeTable
  exact ⟨s₁, hs, hl⟩

lemma FrameLedger.single (h : FrameLedger exact s kernel tabs refs) (f : ℕ) : tabs f ≤ 1 := by
  obtain ⟨ts, fs, hgood, hts, -⟩ := h.held
  have hnodup := (List.nodup_append'.1 hgood.inv.held_nodup).2.1
  rw [← hts]
  exact List.nodup_iff_count_le_one.1 (List.nodup_append'.1 hnodup.of_map).1 f

end Removes

section Step

variable {exact : Prop} {s : Pmm} {kernel : List Block} {tabs refs : ℕ → ℕ} {t : Pml4} {l3 : Tree Pte 3} {l2 : Tree Pte 2}
  {va wa i j : ℕ}

def Looked (l2 : Tree Pte 2) (i : ℕ) (o : Option (Tree Pte 2)) : Prop :=
  ∀ l2', o = some l2' → l2'.empty ptes = false ∧
    (∀ l1 : Tree Pte 1, l2'.entry i = some l1 → l1.empty ptes = false) ∧ ∀ k ≠ i, l2'.entry k = l2.entry k

def Beside (va wa : ℕ) (o : Option (Tree Pte 2)) : Prop :=
  digit ptes 3 (wa / pageSize) = digit ptes 3 (va / pageSize) ∧
    digit ptes 2 (wa / pageSize) = digit ptes 2 (va / pageSize) ∧
      (o = none ∨ digit ptes 1 (wa / pageSize) = digit ptes 1 (va / pageSize))

lemma covered_set {o : Option (Tree Pte 2)} (h3 : t.entry (digit ptes 3 (va / pageSize)) = some l3)
    (h2 : l3.entry (digit ptes 2 (va / pageSize)) = some l2) (ho : Looked l2 (digit ptes 1 (va / pageSize)) o)
    (h : t.Covered wa ∨ Beside va wa o) :
    Pml4.Covered (t.set (digit ptes 3 (va / pageSize)) (some (l3.set (digit ptes 2 (va / pageSize)) o))) wa := by
  intro m3 hm3 m2 hm2
  by_cases d3 : digit ptes 3 (wa / pageSize) = digit ptes 3 (va / pageSize)
  · rw [d3, Node.set_entry_self] at hm3
    cases hm3
    by_cases d2 : digit ptes 2 (wa / pageSize) = digit ptes 2 (va / pageSize)
    · rw [d2, Node.set_entry_self] at hm2
      obtain ⟨he, hi, hk⟩ := ho m2 hm2
      refine ⟨he, fun m1 hm1 => ?_⟩
      by_cases d1 : digit ptes 1 (wa / pageSize) = digit ptes 1 (va / pageSize)
      · exact hi m1 (d1 ▸ hm1)
      · rcases h with h | ⟨-, -, ho' | d1'⟩
        · exact (h l3 (d3 ▸ h3) l2 (d2 ▸ h2)).2 m1 (hk _ d1 ▸ hm1)
        · rw [ho'] at hm2
          cases hm2
        · exact absurd d1' d1
    · rw [Node.set_entry_ne _ _ d2] at hm2
      exact (h.resolve_right fun hb => d2 hb.2.1) l3 (d3 ▸ h3) m2 hm2
  · rw [Node.set_entry_ne _ _ d3] at hm3
    exact (h.resolve_right fun hb => d3 hb.1) m3 hm3 m2 hm2

lemma covered_clear (h : t.Covered wa ∨ digit ptes 3 (wa / pageSize) = digit ptes 3 (va / pageSize)) :
    Pml4.Covered (t.set (digit ptes 3 (va / pageSize)) none) wa := by
  intro m3 hm3
  by_cases d3 : digit ptes 3 (wa / pageSize) = digit ptes 3 (va / pageSize)
  · rw [d3, Node.set_entry_self] at hm3
    cases hm3
  · rw [Node.set_entry_ne _ _ d3] at hm3
    exact h.resolve_right d3 m3 hm3

lemma digit_page (n v : ℕ) : digit ptes n (v / pageSize) = v / (4096 * 512 ^ n) % 512 := by
  rw [digit, pageSize, ptes, Nat.div_div_eq_div_mul]

lemma digit_three : va / 2 ^ 39 = wa / 2 ^ 39 → digit ptes 3 (wa / pageSize) = digit ptes 3 (va / pageSize) := by
  intro h
  rw [digit_page, digit_page, show 4096 * 512 ^ 3 = 2 ^ 39 by norm_num, h]

lemma digit_two : va / 2 ^ 30 = wa / 2 ^ 30 → digit ptes 2 (wa / pageSize) = digit ptes 2 (va / pageSize) := by
  intro h
  rw [digit_page, digit_page, show 4096 * 512 ^ 2 = 2 ^ 30 by norm_num, h]

lemma digit_one : va / 2 ^ 21 = wa / 2 ^ 21 → digit ptes 1 (wa / pageSize) = digit ptes 1 (va / pageSize) := by
  intro h
  rw [digit_page, digit_page, show 4096 * 512 ^ 1 = 2 ^ 21 by norm_num, h]

structure Pruned (exact : Prop) (kernel : List Block) (tabs refs : ℕ → ℕ) (s : Pmm) (t : Pml4) (va : ℕ)
    (fs : List ℕ) (s' : Pmm) (t' : Pml4) (va' : ℕ) (freed : Bool) : Prop where
  frees : FreesTables s t fs s' t'
  ledger : FrameLedger exact s' kernel (tabs + tableCount 4 t') refs
  freed : freed = true ↔ fs ≠ []
  next : va + 2 ^ 21 ≤ va' ∧ va' % 2 ^ 21 = 0
  covers : ∀ wa, t.Covered wa ∨ va ≤ wa ∧ wa < va' → t'.Covered wa

lemma set_set {α : Type} (t : Node α) (i : ℕ) (c d : Option α) : (t.set i c).set i d = t.set i d := by
  simp only [Node.set, Function.update_idem]

lemma set_self {α : Type} {t : Node α} {i : ℕ} {c : Option α} (h : t.entry i = c) : t.set i c = t := by
  rw [Node.set, ← h, Function.update_eq_self]

section Tables

variable (hi : i < width 3) (hj : j < width 2)
include hi

variable (t) in
lemma removes_three {c : Tree Pte 3} (he : Node.empty ptes c = true) :
    Removes 3 (t.set i (some c)) (Node.label c) (t.set i none) :=
  ⟨i, hi, c, Node.set_entry_self .., .inl ⟨he, rfl, (set_set ..).symm⟩⟩

include hj

variable (t l3) in
lemma removes_two {c : Tree Pte 2} (he : Node.empty ptes c = true) :
    Removes 3 (t.set i (some (l3.set j (some c)))) (Node.label c) (t.set i (some (l3.set j none))) := by
  refine ⟨i, hi, _, Node.set_entry_self .., .inr ⟨_, ⟨j, hj, c, Node.set_entry_self .., .inl ⟨he, rfl, rfl⟩⟩, ?_⟩⟩
  rw [set_set, set_set]

lemma removes_one (h3 : t.entry i = some l3) (h2 : l3.entry j = some l2) {k : ℕ} (hk : k < width 1) {c : Tree Pte 1} (h1 : l2.entry k = some c)
    (he : Node.empty ptes c = true) : Removes 3 t (Node.label c) (t.set i (some (l3.set j (some (l2.set k none))))) :=
  ⟨i, hi, l3, h3, .inr ⟨_, ⟨j, hj, l2, h2, .inr ⟨_, ⟨k, hk, c, h1, .inl ⟨he, rfl, rfl⟩⟩, rfl⟩⟩, rfl⟩⟩

lemma prunePageTable_pruned (h3 : t.entry i = some l3) (h2 : l3.entry j = some l2) {k : ℕ} (hk : k < width 1)
    (h : FrameLedger exact s kernel (tabs + tableCount 4 t) refs) :
    ∃ fs s' l2' freed, s.prunePageTable l2 k = .ok (s', l2', freed) ∧
      FreesTables s t fs s' (t.set i (some (l3.set j (some l2')))) ∧
      FrameLedger exact s' kernel (tabs + tableCount 4 (t.set i (some (l3.set j (some l2'))) : Tree Pte 4)) refs ∧
      (freed = true ↔ fs ≠ []) ∧ (∀ l1 : Tree Pte 1, l2'.entry k = some l1 → l1.empty ptes = false) ∧
      ∀ m ≠ k, l2'.entry m = l2.entry m := by
  have hsame : t.set i (some (l3.set j (some l2))) = t := by rw [set_self h2, set_self h3]
  rw [Pmm.prunePageTable]
  cases h1 : l2.entry k with
  | none =>
    refine ⟨[], s, l2, false, rfl, by rw [hsame]; exact .nil s t, by rw [hsame]; exact h, by simp, fun l1 hl1 => ?_, fun _ _ => rfl⟩
    rw [h1] at hl1
    cases hl1
  | some c =>
    dsimp only
    by_cases he : Node.empty ptes c = true
    · have hr := removes_one hi hj h3 h2 hk h1 he
      obtain ⟨s₁, hs, hl⟩ := hr.frees h
      rw [if_pos he, hs]
      refine ⟨[_], s₁, _, true, rfl, .cons hr hs (.nil _ _), hl, by simp, fun l1 hl1 => ?_, fun m hm => ?_⟩
      · rw [Node.set_entry_self] at hl1
        cases hl1
      · exact Node.set_entry_ne _ _ hm
    · rw [if_neg he]
      refine ⟨[], s, l2, false, rfl, by rw [hsame]; exact .nil s t, by rw [hsame]; exact h, by simp, fun l1 hl1 => ?_, fun _ _ => rfl⟩
      cases h1.symm.trans hl1
      exact Bool.not_eq_true _ ▸ he

end Tables

lemma pruneStep_pruned (hva : va < 2 ^ 47) (halign : va % 2 ^ 21 = 0)
    (h : FrameLedger exact s kernel (tabs + tableCount 4 t) refs) :
    ∃ fs s' t' va' freed, s.pruneStep t va = .ok (s', t', va', freed) ∧
      Pruned exact kernel tabs refs s t va fs s' t' va' freed := by
  have hfit := fits_page hva
  have hthree : ∀ wa, va ≤ wa → wa < va / 2 ^ 39 * 2 ^ 39 + 2 ^ 39 →
      digit ptes 3 (wa / pageSize) = digit ptes 3 (va / pageSize) := fun wa _ _ => digit_three (by omega)
  have htwo : ∀ wa, va ≤ wa → wa < va / 2 ^ 30 * 2 ^ 30 + 2 ^ 30 →
      digit ptes 3 (wa / pageSize) = digit ptes 3 (va / pageSize) ∧
        digit ptes 2 (wa / pageSize) = digit ptes 2 (va / pageSize) := fun wa _ _ =>
    ⟨digit_three (by omega), digit_two (by omega)⟩
  rw [Pmm.pruneStep]
  simp only
  cases h4 : t.entry (digit ptes 3 (va / pageSize)) with
  | none =>
    refine ⟨[], s, t, _, false, rfl, .nil s t, h, by simp, by omega, fun wa hw => ?_⟩
    rcases hw with hw | ⟨hlow, hhigh⟩
    · exact hw
    · intro l3 hl3
      rw [hthree wa hlow hhigh, h4] at hl3
      cases hl3
  | some l3 =>
    dsimp only
    cases h3 : l3.entry (digit ptes 2 (va / pageSize)) with
    | none =>
      refine ⟨[], s, t, _, false, rfl, .nil s t, h, by simp, by omega, fun wa hw => ?_⟩
      rcases hw with hw | ⟨hlow, hhigh⟩
      · exact hw
      · intro m3 hm3 l2 hl2
        obtain ⟨d3, d2⟩ := htwo wa hlow hhigh
        rw [d3, h4] at hm3
        cases hm3
        rw [d2, h3] at hl2
        cases hl2
    | some l2 =>
      have hi := hfit 3 le_rfl
      have hj := hfit 2 (by omega)
      obtain ⟨fs, s₁, l2', freed, hp, hfrees, hl, hfreed, hone, hrest⟩ :=
        prunePageTable_pruned hi hj h4 h3 (hfit 1 (by omega)) h
      dsimp only
      rw [hp]
      dsimp only
      by_cases he : Node.empty ptes l2' = true
      · have hr := removes_two t l3 hi hj he
        obtain ⟨s₂, hs₂, hl₂⟩ := hr.frees hl
        have hfrees₂ := hfrees.append (.cons hr hs₂ (.nil _ _))
        rw [if_pos he, hs₂]
        dsimp only
        by_cases he' : Node.empty ptes (l3.set (digit ptes 2 (va / pageSize)) none) = true
        · have hr' := removes_three t hi he'
          obtain ⟨s₃, hs₃, hl₃⟩ := hr'.frees hl₂
          rw [if_pos he', hs₃]
          refine ⟨_, s₃, _, _, true, rfl, hfrees₂.append (.cons hr' hs₃ (.nil _ _)), hl₃, by simp, by omega,
            fun wa hw => covered_clear (hw.imp_right fun hw => (htwo wa hw.1 hw.2).1)⟩
        · rw [if_neg he']
          refine ⟨_, s₂, _, _, true, rfl, hfrees₂, hl₂, by simp, by omega, fun wa hw => covered_set h4 h3 (by rintro _ ⟨⟩) ?_⟩
          exact hw.imp_right fun hw => ⟨(htwo wa hw.1 hw.2).1, (htwo wa hw.1 hw.2).2, .inl rfl⟩
      · rw [if_neg he]
        refine ⟨fs, s₁, _, _, freed, rfl, hfrees, hl, hfreed, by omega, fun wa hw => covered_set h4 h3 ?_ ?_⟩
        · rintro m2 hm2
          cases hm2
          exact ⟨Bool.not_eq_true _ ▸ he, hone, hrest⟩
        · refine hw.imp_right fun hw => ?_
          obtain ⟨d3, d2⟩ := htwo wa hw.1 (by omega)
          exact ⟨d3, d2, .inr (digit_one (by omega))⟩

end Step

section Runs

variable {exact : Prop} {s : Pmm} {kernel : List Block} {tabs refs : ℕ → ℕ} {t : Pml4} {va stop : ℕ}

lemma pruneLoop_done (h : stop ≤ va) (k : ℕ) (freed : Bool) : s.pruneLoop k t va stop freed = .ok (s, t, freed) := by
  cases k with
  | zero => rfl
  | succ k => rw [Pmm.pruneLoop, if_neg (by omega)]

lemma pruneLoop_pruned (n : ℕ) (hn : stop ≤ va + n * 2 ^ 21) (hstop : stop ≤ 2 ^ 47) (halign : va % 2 ^ 21 = 0)
    (h : FrameLedger exact s kernel (tabs + tableCount 4 t) refs) (freed : Bool) :
    ∃ fs s' t' freed', (∀ k, s.pruneLoop (n + k) t va stop freed = .ok (s', t', freed')) ∧
      FreesTables s t fs s' t' ∧ FrameLedger exact s' kernel (tabs + tableCount 4 t') refs ∧
      (freed' = true ↔ freed = true ∨ fs ≠ []) ∧ ∀ wa, t.Covered wa ∨ va ≤ wa ∧ wa < stop → t'.Covered wa := by
  induction n generalizing s t va freed with
  | zero =>
    refine ⟨[], s, t, freed, fun k => pruneLoop_done (by omega) _ freed, .nil s t, h, by simp, fun wa hw => ?_⟩
    exact hw.resolve_right (by omega)
  | succ n ih =>
    by_cases hlt : va < stop
    · obtain ⟨fs, s₁, t₁, va₁, freed₁, hs, hp⟩ := pruneStep_pruned (hlt.trans_le hstop) halign h
      obtain ⟨hnext, halign₁⟩ := hp.next
      obtain ⟨gs, s₂, t₂, freed₂, hr, hfrees, hl, hfreed, hcovers⟩ :=
        ih (by omega) halign₁ hp.ledger (freed || freed₁)
      refine ⟨fs ++ gs, s₂, t₂, freed₂, fun k => ?_, hp.frees.append hfrees, hl, ?_, fun wa hw => ?_⟩
      · rw [show n + 1 + k = n + k + 1 by omega, Pmm.pruneLoop, if_pos hlt, hs]
        exact hr k
      · rw [hfreed, Bool.or_eq_true, hp.freed, or_assoc, Ne, Ne, Ne, List.append_eq_nil_iff, not_and_or]
      · refine hcovers wa ?_
        by_cases hin : va₁ ≤ wa ∧ wa < stop
        · exact .inr hin
        · exact .inl (hp.covers wa (hw.imp_right fun hw => ⟨hw.1, by omega⟩))
    · refine ⟨[], s, t, freed, fun k => pruneLoop_done (by omega) _ freed, .nil s t, h, by simp, fun wa hw => ?_⟩
      exact hw.resolve_right (by omega)

theorem pruneTables_spec (h : FrameLedger exact s kernel (tabs + tableCount 4 t) refs) (start stop : ℕ) :
    ∃ fs s' t' freed, s.pruneTables t start stop = .ok (s', t', freed) ∧
      (∀ k, s.pruneLoop ((min stop userSpaceEnd - start / 2 ^ 21 * 2 ^ 21) / 2 ^ 21 + 1 + k) t
        (start / 2 ^ 21 * 2 ^ 21) (min stop userSpaceEnd) false = .ok (s', t', freed)) ∧
      FreesTables s t fs s' t' ∧ fs.Nodup ∧ (∀ f ∈ fs, tableCount 4 t' f = 0) ∧ (freed = true ↔ fs ≠ []) ∧
      (∀ va, t'.get va = t.get va) ∧ ∀ va, start ≤ va → va < min stop userSpaceEnd → t'.Covered va := by
  have hrounds : min stop userSpaceEnd ≤ start / 2 ^ 21 * 2 ^ 21 +
      ((min stop userSpaceEnd - start / 2 ^ 21 * 2 ^ 21) / 2 ^ 21 + 1) * 2 ^ 21 := by omega
  have halign : start / 2 ^ 21 * 2 ^ 21 % 2 ^ 21 = 0 := Nat.mul_mod_left _ _
  obtain ⟨fs, s', t', freed, hr, hfrees, -, hfreed, hcovers⟩ :=
    pruneLoop_pruned _ hrounds ((min_le_right stop userSpaceEnd).trans (by decide)) halign h false
  have hprune : s.pruneTables t start stop = .ok (s', t', freed) := hr 0
  have hcount : ∀ f, tableCount 4 t' f + fs.count f ≤ 1 := by
    intro f
    have hone := h.single f
    rw [Pi.add_apply, hfrees.count] at hone
    omega
  refine ⟨fs, s', t', freed, hprune, hr, hfrees, List.nodup_iff_count_le_one.2 fun f => ?_, fun f hf => ?_,
    by simpa using hfreed, Pmm.pruneTables_get hprune, fun va hlow hhigh => hcovers va (.inr ⟨by omega, hhigh⟩)⟩
  · have := hcount f
    omega
  · have hpos := List.count_pos_iff.2 hf
    have := hcount f
    omega

def fourPages : Pmm := Pmm.pmmInit 0x5000 (fun _ => 0) [⟨0x1000, 0x5000⟩]

lemma fourPages_ledger : FrameLedger False fourPages [] 0 0 := by
  refine ⟨⟨[], [], Pmm.pmmInit_good (by simp) (by simp), fun _ => rfl, fun _ => ?_⟩, ?_, False.elim, by decide +kernel⟩
  · exact iff_of_false nofun (Nat.lt_irrefl 0)
  · exact fun _ h => absurd h (Nat.lt_irrefl 0)

def fourTables : Pmm × Pml4 := (Pmm.walkCreate 3 fourPages.allocTable.2 (emptyTable 4) 0).2

lemma fourTables_ledger : FrameLedger False fourTables.1 [] (0 + tableCount 4 fourTables.2) 0 := by
  have halloc : fourPages.allocTable = (some 4, fourPages.allocTable.2) := Prod.ext (by decide +kernel) rfl
  obtain ⟨hl, -⟩ := fourPages_ledger.pmmAllocPage halloc
  have hfit : Fits ptes width 3 (0 / pageSize) := fits_page (by decide)
  obtain ⟨added, hw⟩ := walkCreate_walked (emptyTable 4) hfit hl
  have htables : tableCount 4 fourTables.2 = tableCount 4 (emptyTable 4 : Tree Pte 4) + added := hw.tables
  rw [htables, tableCount_emptyTable, ← add_assoc]
  exact hw.ledger

theorem pruneTables_spec_path : ∃ fs s' t', fourTables.1.pruneTables fourTables.2 0 0x200000 = .ok (s', t', true) ∧
    FreesTables fourTables.1 fourTables.2 fs s' t' ∧ fs.Nodup ∧ fs ≠ [] := by
  obtain ⟨fs, s', t', freed, hr, -, hfrees, hnodup, -, hfreed, -⟩ := pruneTables_spec fourTables_ledger 0 0x200000
  have htrue : (fourTables.1.pruneTables fourTables.2 0 0x200000).toOption.any (fun r => r.2.2) = true := by
    decide +kernel
  rw [hr] at htrue
  obtain rfl : freed = true := htrue
  exact ⟨fs, s', t', hr, hfrees, hnodup, hfreed.1 rfl⟩

end Runs

end MyOS.Memory
