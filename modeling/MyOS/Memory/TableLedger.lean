import MyOS.Memory.FrameLedger
import MyOS.Memory.Forking

/-! What the operations on page tables take from the page allocator and give back to it. -/

namespace MyOS.Memory

open Library.Dyadic Library.Radix

def tableCount (n : ℕ) (t : Tree Pte n) (f : ℕ) : ℕ :=
  sum width (fun _ => 0) (fun l => if f = l then 1 else 0) n t

def frameCount (n : ℕ) (t : Tree Pte n) (f : ℕ) : ℕ :=
  sum width (fun pte => if f = pte.frame then 1 else 0) (fun _ => 0) n t

section Counts

variable {n i key : ℕ} {t : Node (Tree Pte n)} {c : Tree Pte n}

lemma single_eq (p : ℕ) : (fun f => if f = p then 1 else 0) = (Pi.single p 1 : ℕ → ℕ) := by
  funext f
  rw [Pi.single_apply]

lemma tableCount_entry (hi : i < width n) (hc : t.entry i = some c) :
    tableCount (n + 1) t = tableCount (n + 1) (t.set i none) + tableCount n c := by
  funext f
  exact (sum_entry hi).trans (by rw [hc]; rfl)

lemma tableCount_none (hi : i < width n) (hc : t.entry i = none) :
    tableCount (n + 1) (t.set i none) = tableCount (n + 1) t := by
  funext f
  exact ((sum_entry hi).trans (by rw [hc]; rfl)).symm

lemma tableCount_set (hi : i < width n) :
    tableCount (n + 1) (t.set i (some c)) = tableCount (n + 1) (t.set i none) + tableCount n c := by
  funext f
  exact sum_set_some hi c

lemma tableCount_of_empty (h : t.empty ptes = true) :
    tableCount (n + 1) t = Pi.single t.label 1 := by
  funext f
  rw [← single_eq]
  exact sum_of_empty fun i hi => Node.empty_iff.1 h i (hi.trans_le (width_le n))

lemma frameCount_of_empty (h : t.empty ptes = true) : frameCount (n + 1) t = 0 := by
  funext f
  exact sum_of_empty fun i hi => Node.empty_iff.1 h i (hi.trans_le (width_le n))

lemma emptyTable_empty {α : Type} (p : ℕ) : (emptyTable p : Node α).empty ptes = true :=
  Node.empty_iff.2 fun _ _ => rfl

lemma tableCount_emptyTable (p : ℕ) : tableCount (n + 1) (emptyTable p) = Pi.single p 1 :=
  tableCount_of_empty (emptyTable_empty p)

lemma frameCount_emptyTable (p : ℕ) : frameCount (n + 1) (emptyTable p) = 0 :=
  frameCount_of_empty (emptyTable_empty p)

end Counts

section Leaves

variable {n key : ℕ} {t : Tree Pte (n + 1)} {v : Option Pte}

def mappedBy (v : Option Pte) : ℕ → ℕ := v.elim 0 fun pte => Pi.single pte.frame 1

lemma tableCount_setLeaf (h : HasPath ptes n t key) (hk : Fits ptes width n key) :
    tableCount (n + 1) (setLeaf ptes n t key v) = tableCount (n + 1) t := by
  funext f
  have hsum := sum_setLeaf (f := fun _ => 0) (g := fun l => if f = l then 1 else 0) (v := v) h hk
  have hzero : ∀ o : Option Pte, o.elim 0 (fun _ => 0) = 0 := fun o => by cases o <;> rfl
  rwa [hzero, hzero] at hsum

lemma frameCount_setLeaf (h : HasPath ptes n t key) (hk : Fits ptes width n key) :
    frameCount (n + 1) (setLeaf ptes n t key v) + mappedBy (lookup ptes n t key) =
      frameCount (n + 1) t + mappedBy v := by
  funext f
  have hval : ∀ o : Option Pte, o.elim 0 (fun pte => if f = pte.frame then 1 else 0) = mappedBy o f := by
    intro o
    cases o with
    | none => rfl
    | some pte => exact (Pi.single_apply ..).symm
  have hsum := sum_setLeaf (f := fun pte => if f = pte.frame then 1 else 0) (g := fun _ => 0) (v := v) h hk
  rwa [hval, hval] at hsum

lemma frameCount_pos {pte : Pte} (h : lookup ptes n t key = some pte) (hk : Fits ptes width n key) :
    0 < frameCount (n + 1) t pte.frame := by
  have hle := le_sum_of_lookup (f := fun q : Pte => if pte.frame = q.frame then 1 else 0)
    (g := fun _ => 0) (t := t) hk
  rw [h, Option.elim_some, if_pos rfl] at hle
  exact hle

end Leaves

section Walk

variable {exact : Prop} {s : Pmm} {kernel : List Block} {tabs refs : ℕ → ℕ} {n key : ℕ}

structure Walked (exact : Prop) (s : Pmm) (kernel : List Block) (tabs refs : ℕ → ℕ) (t : Tree Pte n)
    (r : Bool × Pmm × Tree Pte n) (added : ℕ → ℕ) : Prop where
  ledger : FrameLedger exact r.2.1 kernel (tabs + added) refs
  tables : tableCount n r.2.2 = tableCount n t + added
  bytes : SameBytes tabs refs s r.2.1

lemma Walked.refl {t : Tree Pte n} (ok : Bool) (h : FrameLedger exact s kernel tabs refs) :
    Walked exact s kernel tabs refs t (ok, s, t) 0 where
  ledger := by rwa [add_zero]
  tables := (add_zero _).symm
  bytes := .refl

lemma walkCreate_walked (t : Tree Pte (n + 1)) (hk : Fits ptes width n key)
    (h : FrameLedger exact s kernel tabs refs) :
    ∃ added, Walked exact s kernel tabs refs t (s.walkCreate n t key) added := by
  induction n generalizing s tabs with
  | zero => exact ⟨0, .refl true h⟩
  | succ n ih =>
    obtain ⟨hi, hlow⟩ := fits_succ.1 hk
    rw [Pmm.walkCreate]
    cases hc : t.entry (digit ptes (n + 1) key) with
    | some c =>
      obtain ⟨added, hw⟩ := ih c hlow h
      refine ⟨added, ⟨hw.ledger, ?_, hw.bytes⟩⟩
      rw [tableCount_entry hi hc, tableCount_set hi, hw.tables]
      exact (add_assoc _ _ _).symm
    | none =>
      rcases ha : s.allocTable with ⟨_ | p, s₁⟩
      · obtain rfl := h.pmmAllocPage_none ha
        exact ⟨0, .refl false h⟩
      · obtain ⟨hl, hbytes⟩ := h.pmmAllocPage ha
        obtain ⟨added, hw⟩ := ih (emptyTable p) hlow hl
        refine ⟨Pi.single p 1 + added, ⟨?_, ?_, ?_⟩⟩
        · rw [← add_assoc]
          exact hw.ledger
        · rw [tableCount_set hi, tableCount_none hi hc, hw.tables, tableCount_emptyTable]
        · refine hbytes.trans hw.bytes fun f hf => ?_
          rw [Pi.add_apply]
          omega

end Walk

section Destroy

variable {exact : Prop} {s : Pmm} {kernel : List Block} {tabs refs : ℕ → ℕ} {n : ℕ}

def TreeLedger (exact : Prop) (kernel : List Block) (tabs refs : ℕ → ℕ) (s : Pmm) (n : ℕ)
    (t : Tree Pte n) : Prop :=
  FrameLedger exact s kernel (tabs + tableCount n t) (refs + frameCount n t)

def below (count : (n : ℕ) → Tree Pte n → ℕ → ℕ) (t : Node (Tree Pte n)) (slots : List ℕ) : ℕ → ℕ :=
  (slots.map fun i => (t.entry i).elim 0 (count n)).sum

lemma below_apply {count : (n : ℕ) → Tree Pte n → ℕ → ℕ} {t : Node (Tree Pte n)} {slots : List ℕ}
    {f : ℕ} : below count t slots f = (slots.map fun i => (t.entry i).elim 0 fun c => count n c f).sum := by
  rw [below, Library.Sums.sum_map_apply]
  congr 1
  apply List.map_congr_left
  intro i _
  cases t.entry i <;> rfl

lemma tableCount_succ (t : Node (Tree Pte n)) :
    tableCount (n + 1) t = below tableCount t (List.range (width n)) + Pi.single t.label 1 := by
  funext f
  rw [Pi.add_apply, below_apply, ← single_eq]
  exact Nat.add_comm _ _

lemma frameCount_succ (t : Node (Tree Pte n)) :
    frameCount (n + 1) t = below frameCount t (List.range (width n)) := by
  funext f
  rw [below_apply]
  exact Nat.zero_add _

lemma releaseUserFrame_ledger {pte : Pte} (h : TreeLedger exact kernel tabs refs s 0 pte) :
    ∃ s', s.releaseUserFrame pte = .ok s' ∧ FrameLedger exact s' kernel tabs refs ∧ s'.mem = s.mem := by
  have htab : tableCount 0 pte = 0 := rfl
  have hframe : frameCount 0 pte = Pi.single pte.frame 1 := single_eq pte.frame
  rw [TreeLedger, htab, hframe, add_zero] at h
  have hman := h.managed (p := pte.frame) (by rw [add_single_self]; omega)
  rw [Pmm.releaseUserFrame, if_neg (not_le.2 hman.1), if_neg (by rw [hman.2]; decide)]
  exact h.dropMapping

lemma destroyTables_ledger (t : Tree Pte n) (h : TreeLedger exact kernel tabs refs s n t) :
    ∃ s', s.destroyTables n t = .ok s' ∧ FrameLedger exact s' kernel tabs refs ∧ s'.mem = s.mem := by
  induction n generalizing s tabs refs with
  | zero => exact releaseUserFrame_ledger h
  | succ n ih =>
    have hslots : ∀ (slots : List ℕ) (s : Pmm) (tabs : ℕ → ℕ),
        FrameLedger exact s kernel (tabs + below tableCount t slots) (refs + below frameCount t slots) →
        ∃ s', slots.foldlM (fun s i => (t.entry i).elim (.ok s) (Pmm.destroyTables n s)) s = .ok s' ∧
          FrameLedger exact s' kernel tabs refs ∧ s'.mem = s.mem := by
      intro slots
      induction slots with
      | nil => exact fun s tabs hs => ⟨s, rfl, hs, rfl⟩
      | cons i slots ihs =>
        intro s tabs hs
        rw [below, below, List.map_cons, List.map_cons, List.sum_cons, List.sum_cons] at hs
        rw [List.foldlM_cons]
        cases hc : t.entry i with
        | none =>
          rw [hc, Option.elim_none, Option.elim_none, zero_add, zero_add] at hs
          exact ihs s tabs hs
        | some c =>
          rw [hc, Option.elim_some, Option.elim_some, add_left_comm, add_left_comm refs,
            add_comm (tableCount n c), add_comm (frameCount n c)] at hs
          obtain ⟨s₁, hs₁, hl₁, hm₁⟩ := ih c hs
          obtain ⟨s₂, hs₂, hl₂, hm₂⟩ := ihs s₁ tabs hl₁
          rw [Option.elim_some, hs₁]
          exact ⟨s₂, hs₂, hl₂, hm₂.trans hm₁⟩
    rw [TreeLedger, tableCount_succ, frameCount_succ, add_comm (below tableCount t _), ← add_assoc] at h
    obtain ⟨s₁, hs₁, hl₁, hm₁⟩ := hslots _ s _ h
    obtain ⟨s₂, hs₂, hl₂, hm₂⟩ := hl₁.freeTable
    rw [Pmm.destroyTables, hs₁]
    exact ⟨s₂, hs₂, hl₂, hm₂.trans hm₁⟩

end Destroy

end MyOS.Memory
