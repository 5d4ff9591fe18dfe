import MyOS.Library.Radix
import MyOS.Memory.Buddy

/-! User page tables: the walk that creates missing tables, unmapping, the pruning of empty
tables and the destruction of an address space. -/

namespace MyOS.Memory

open Library.Radix

structure Pte where
  frame : ℕ
  writable : Bool
  cow : Bool := false
  nx : Bool := false
  deriving DecidableEq, Repr

def ptes : ℕ := 512

/-- The entries of a table that user addresses reach: the upper half of a PML4 belongs to the
kernel and is the same in every address space. -/
def width (n : ℕ) : ℕ := if n = 3 then 256 else ptes

/-- The tables of the user half, from a PML4 (height 4) down to the page tables (height 1). A
node is labelled with its own frame. -/
abbrev Pml4 := Tree Pte 4

def emptyTable {α : Type} (frame : ℕ) : Node α := { label := frame, entry := fun _ => none }

def isUserAddress (v : ℕ) : Bool := v < userSpaceEnd

namespace Pmm

def pmmAllocPage (s : Pmm) (gfp : Gfp) : Option ℕ × Pmm :=
  match s.allocPages 0 gfp with
  | (none, s) => (none, s)
  | (some p, s) => (if pageToPhys p = 0 then none else some p, s)

def allocTable (s : Pmm) : Option ℕ × Pmm := s.pmmAllocPage { zero := true }

def walkCreate : (n : ℕ) → Pmm → Tree Pte (n + 1) → ℕ → Bool × Pmm × Tree Pte (n + 1)
  | 0, s, t, _ => (true, s, t)
  | n + 1, s, (t : Node (Tree Pte (n + 1))), key =>
    match t.entry (digit ptes (n + 1) key) with
    | some c =>
      let r := walkCreate n s c key
      (r.1, r.2.1, t.set (digit ptes (n + 1) key) (some r.2.2))
    | none =>
      match s.allocTable with
      | (none, s) => (false, s, t)
      | (some p, s) =>
        let r := walkCreate n s (emptyTable p) key
        (r.1, r.2.1, t.set (digit ptes (n + 1) key) (some r.2.2))

def dropMapping (s : Pmm) (frame : ℕ) : Except Panic Pmm :=
  (if (s.page frame).mapcount ≠ 0 then
    s.setPage frame fun g => { g with mapcount := g.mapcount - 1 } else s).putPage frame

def releaseUserFrame (s : Pmm) (pte : Pte) : Except Panic Pmm :=
  if s.maxPfn ≤ pte.frame then .ok s
  else if (s.page pte.frame).reserved then .ok s
  else s.dropMapping pte.frame

def destroyTables : (n : ℕ) → Pmm → Tree Pte n → Except Panic Pmm
  | 0, s, (pte : Pte) => s.releaseUserFrame pte
  | n + 1, s, (t : Node (Tree Pte n)) =>
    match (List.range (width n)).foldlM
        (fun s i => (t.entry i).elim (.ok s) (destroyTables n s)) s with
    | .error e => .error e
    | .ok s => s.freePages t.label 0

end Pmm

def Pml4.get (t : Pml4) (va : ℕ) : Option Pte := lookup ptes 3 t (va / pageSize)

def Pml4.put (t : Pml4) (va : ℕ) (pte : Option Pte) : Pml4 := setLeaf ptes 3 t (va / pageSize) pte

def Pmm.prunePageTable (s : Pmm) (l2 : Tree Pte 2) (i : ℕ) :
    Except Panic (Pmm × Tree Pte 2 × Bool) :=
  match l2.entry i with
  | none => .ok (s, l2, false)
  | some (l1 : Tree Pte 1) =>
    if l1.empty ptes then
      match s.freePages l1.label 0 with
      | .error e => .error e
      | .ok s => .ok (s, l2.set i none, true)
    else .ok (s, l2, false)

/-- One round of `vmm_prune_tables`. The result has the next address and says if a table was
freed. -/
def Pmm.pruneStep (s : Pmm) (l4 : Pml4) (va : ℕ) : Except Panic (Pmm × Pml4 × ℕ × Bool) :=
  let key := va / pageSize
  let next4 := va / 2 ^ 39 * 2 ^ 39 + 2 ^ 39
  let next3 := va / 2 ^ 30 * 2 ^ 30 + 2 ^ 30
  match l4.entry (digit ptes 3 key) with
  | none => .ok (s, l4, next4, false)
  | some (l3 : Tree Pte 3) =>
    match l3.entry (digit ptes 2 key) with
    | none => .ok (s, l4, next3, false)
    | some (l2 : Tree Pte 2) =>
      match s.prunePageTable l2 (digit ptes 1 key) with
      | .error e => .error e
      | .ok (s, l2, freed) =>
        if l2.empty ptes then
          match s.freePages l2.label 0 with
          | .error e => .error e
          | .ok s =>
            let l3 := l3.set (digit ptes 2 key) none
            if l3.empty ptes then
              match s.freePages l3.label 0 with
              | .error e => .error e
              | .ok s => .ok (s, l4.set (digit ptes 3 key) none, next3, true)
            else .ok (s, l4.set (digit ptes 3 key) (some l3), next3, true)
        else .ok (s, l4.set (digit ptes 3 key) (some (l3.set (digit ptes 2 key) (some l2))),
          va + 2 ^ 21, freed)

/-- Every round moves on by at least 2 MiB, so a counter for as many rounds is enough. -/
def Pmm.pruneLoop : ℕ → Pmm → Pml4 → ℕ → ℕ → Bool → Except Panic (Pmm × Pml4 × Bool)
  | 0, s, l4, _, _, freed => .ok (s, l4, freed)
  | n + 1, s, l4, va, stop, freed =>
    if va < stop then
      match s.pruneStep l4 va with
      | .error e => .error e
      | .ok (s, l4, va, freed') => pruneLoop n s l4 va stop (freed || freed')
    else .ok (s, l4, freed)

def Pmm.pruneTables (s : Pmm) (l4 : Pml4) (start stop : ℕ) : Except Panic (Pmm × Pml4 × Bool) :=
  let stop := min stop userSpaceEnd
  let va := start / 2 ^ 21 * 2 ^ 21
  s.pruneLoop ((stop - va) / 2 ^ 21 + 1) l4 va stop false

end MyOS.Memory

/-! What the operations on page tables do to the mappings: creating and pruning tables changes
none of them. -/

namespace MyOS.Memory

open Library.Radix

lemma lookup_emptyTable {n frame l : ℕ} :
    lookup ptes n (emptyTable frame : Tree Pte (n + 1)) l = none := by
  cases n <;> rfl

namespace Pmm

lemma lookup_set_same {n i l : ℕ} {t : Node (Tree Pte (n + 1))} {c : Tree Pte (n + 1)}
    {d : Option (Tree Pte (n + 1))} (hc : t.entry i = some c)
    (hd : ∀ l, d.elim none (fun d => lookup ptes n d l) = lookup ptes n c l) :
    lookup ptes (n + 1) (t.set i d : Node (Tree Pte (n + 1))) l =
      lookup ptes (n + 1) (t : Node (Tree Pte (n + 1))) l := by
  rw [lookup_set]
  split
  · rename_i hi
    rw [hd, lookup_entry, hi, hc]
    rfl
  · rfl

lemma walkCreate_lookup (n : ℕ) (s : Pmm) (t : Tree Pte (n + 1)) (key l : ℕ) :
    lookup ptes n (s.walkCreate n t key).2.2 l = lookup ptes n t l := by
  induction n generalizing s l with
  | zero => rfl
  | succ n ih =>
    rw [walkCreate]
    cases hc : t.entry (digit ptes (n + 1) key) with
    | some c => exact lookup_set_same hc fun l => ih s c l
    | none =>
      rcases s.allocTable with ⟨_ | p, s⟩
      · rfl
      · refine lookup_set.trans ?_
        split
        · rename_i hd
          rw [lookup_entry, hd, hc, Option.elim_some, ih, lookup_emptyTable]
          rfl
        · rfl

lemma walkCreate_hasPath (n : ℕ) (s : Pmm) (t : Tree Pte (n + 1)) (key : ℕ)
    (h : (s.walkCreate n t key).1 = true) : HasPath ptes n (s.walkCreate n t key).2.2 key := by
  induction n generalizing s with
  | zero => trivial
  | succ n ih =>
    rw [walkCreate] at h ⊢
    cases hc : t.entry (digit ptes (n + 1) key) with
    | some c =>
      rw [hc] at h
      exact ⟨_, Node.set_entry_self .., ih s c h⟩
    | none =>
      rw [hc] at h
      rcases ha : s.allocTable with ⟨_ | p, s⟩
      · simp [ha] at h
      · rw [ha] at h
        exact ⟨_, Node.set_entry_self .., ih s _ h⟩

lemma prunePageTable_lookup {s s' : Pmm} {l2 l2' : Tree Pte 2} {i : ℕ} {freed : Bool}
    (h : s.prunePageTable l2 i = .ok (s', l2', freed)) (l : ℕ) :
    lookup ptes 1 l2' l = lookup ptes 1 l2 l := by
  rw [prunePageTable] at h
  cases hc : l2.entry i with
  | none =>
    rw [hc] at h
    cases h
    rfl
  | some l1 =>
    rw [hc] at h
    simp only at h
    split at h
    · rename_i he
      split at h
      · cases h
      · cases h
        rw [lookup_set]
        split
        · rename_i hd
          rw [lookup_entry, hd, hc, Option.elim_none, Option.elim_some,
            lookup_of_empty (by decide) he]
        · rfl
    · cases h
      rfl

lemma pruneStep_lookup {s s' : Pmm} {l4 l4' : Pml4} {va va' : ℕ} {freed : Bool}
    (h : s.pruneStep l4 va = .ok (s', l4', va', freed)) (l : ℕ) :
    lookup ptes 3 l4' l = lookup ptes 3 l4 l := by
  rw [pruneStep] at h
  cases h4 : l4.entry (digit ptes 3 (va / pageSize)) with
  | none =>
    simp only [h4] at h
    cases h
    rfl
  | some l3 =>
    simp only [h4] at h
    cases h3 : l3.entry (digit ptes 2 (va / pageSize)) with
    | none =>
      simp only [h3] at h
      cases h
      rfl
    | some l2 =>
      simp only [h3] at h
      split at h
      · cases h
      rename_i s₁ l2' freed₁ hp
      have hl2 := prunePageTable_lookup hp
      split at h
      · rename_i he
        have hnone : ∀ l, lookup ptes 2 (Node.set l3 (digit ptes 2 (va / pageSize)) none) l =
            lookup ptes 2 l3 l := fun l => lookup_set_same h3 fun l => by
          rw [Option.elim_none, ← hl2, lookup_of_empty (by decide) he]
        split at h
        · cases h
        · split at h
          · rename_i he'
            split at h
            · cases h
            · cases h
              refine lookup_set_same h4 fun l => ?_
              rw [Option.elim_none, ← hnone, lookup_of_empty (by decide) he']
          · cases h
            exact lookup_set_same h4 fun l => hnone l
      · cases h
        exact lookup_set_same h4 fun l => lookup_set_same h3 fun l => hl2 l

lemma pruneLoop_lookup {n : ℕ} {s s' : Pmm} {l4 l4' : Pml4} {va stop : ℕ} {freed freed' : Bool}
    (h : s.pruneLoop n l4 va stop freed = .ok (s', l4', freed')) (l : ℕ) :
    lookup ptes 3 l4' l = lookup ptes 3 l4 l := by
  induction n generalizing s l4 va freed with
  | zero =>
    cases h
    rfl
  | succ n ih =>
    rw [pruneLoop] at h
    split at h
    · split at h
      · cases h
      · rename_i hs
        rw [ih h, pruneStep_lookup hs]
    · cases h
      rfl

lemma pruneTables_get {s s' : Pmm} {t t' : Pml4} {start stop : ℕ} {freed : Bool}
    (h : s.pruneTables t start stop = .ok (s', t', freed)) (va : ℕ) : t'.get va = t.get va :=
  pruneLoop_lookup h _

end Pmm

lemma agree_page {va wa : ℕ} (hv : va < 2 ^ 47) (hw : wa < 2 ^ 47) :
    Agree ptes 3 (va / pageSize) (wa / pageSize) ↔ va / pageSize = wa / pageSize := by
  refine ⟨fun h => h.eq ?_ ?_, fun h => h ▸ Agree.refl _ _⟩ <;>
    · simp only [ptes, pageSize]
      omega

lemma fits_page {va : ℕ} (hv : va < 2 ^ 47) : Fits ptes width 3 (va / pageSize) := by
  intro j hj
  have hva : va / pageSize < 2 ^ 35 := by
    simp only [pageSize]
    omega
  generalize va / pageSize = key at hva
  simp only [digit, width]
  split
  · rename_i h3
    subst h3
    simp only [ptes]
    omega
  · exact Nat.mod_lt _ (by decide)

lemma Pml4.get_put {t : Pml4} {va wa : ℕ} {v : Option Pte} (hp : HasPath ptes 3 t (va / pageSize))
    (hv : va < 2 ^ 47) (hw : wa < 2 ^ 47) :
    (t.put va v).get wa = if va / pageSize = wa / pageSize then v else t.get wa := by
  rw [Pml4.get, Pml4.put, lookup_setLeaf hp, if_congr (agree_page hv hw) rfl rfl]
  rfl

end MyOS.Memory
