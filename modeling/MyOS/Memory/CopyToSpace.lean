import MyOS.Memory.PageTable

/-! Copies into an address space that is not the current one, page by page through the direct map. -/

namespace MyOS.Memory

open Library

def vmmTranslate (t : Pml4) (va : ℕ) : ℕ :=
  match t.get va with
  | none => 0
  | some pte => pageToPhys pte.frame + va % pageSize

def copyChunks (t : Pml4) : ℕ → (ℕ → UInt8) → ℕ → List UInt8 → Bool × (ℕ → UInt8)
  | 0, mem, _, _ => (true, mem)
  | n + 1, mem, virt, src =>
    if src = [] then (true, mem)
    else
      let phys := vmmTranslate t virt
      if phys = 0 then (false, mem)
      else
        let chunk := min src.length (pageSize - virt % pageSize)
        copyChunks t n (Bytes.store mem phys (src.take chunk)) (virt + chunk) (src.drop chunk)

def vmmCopyToSpace (t : Pml4) (mem : ℕ → UInt8) (virt : ℕ) (src : List UInt8) :
    Bool × (ℕ → UInt8) := copyChunks t src.length mem virt src

def view (t : Pml4) (mem : ℕ → UInt8) : ℕ → UInt8 := fun va => mem (vmmTranslate t va)

structure Window (t : Pml4) (lo hi : ℕ) : Prop where
  mapped : ∀ va, lo ≤ va → va < hi → vmmTranslate t va ≠ 0
  injective : ∀ va wa, lo ≤ va → va < hi → lo ≤ wa → wa < hi →
    vmmTranslate t va = vmmTranslate t wa → va = wa

structure Copied (t : Pml4) (lo hi : ℕ) (mem mem' : ℕ → UInt8) (virt : ℕ) (src : List UInt8) :
    Prop where
  seen : ∀ va, lo ≤ va → va < hi → view t mem' va = Bytes.store (view t mem) virt src va
  kept : ∀ a, (∀ va, lo ≤ va → va < hi → vmmTranslate t va ≠ a) → mem' a = mem a

variable {t : Pml4} {lo hi virt : ℕ} {mem mem' : ℕ → UInt8} {src : List UInt8}

lemma vmmTranslate_add {va k : ℕ} (h : vmmTranslate t va ≠ 0) (hk : va % pageSize + k < pageSize) :
    vmmTranslate t (va + k) = vmmTranslate t va + k := by
  have hpage : (va + k) / pageSize = va / pageSize := by
    have hsplit := Nat.div_add_mod va pageSize
    have hsum : va + k = va % pageSize + k + pageSize * (va / pageSize) := by omega
    rw [hsum, Nat.add_mul_div_left _ _ (by decide), Nat.div_eq_of_lt hk, Nat.zero_add]
  have hmod : (va + k) % pageSize = va % pageSize + k := by
    rw [Nat.add_mod, Nat.mod_eq_of_lt (by omega : k < pageSize), Nat.mod_eq_of_lt hk]
  have hget : t.get (va + k) = t.get va := by
    unfold Pml4.get
    rw [hpage]
  unfold vmmTranslate at h ⊢
  rw [hget]
  cases hg : t.get va with
  | none => simp [hg] at h
  | some pte =>
    simp only [hmod]
    rw [Nat.add_assoc]

lemma Window.store (h : Window t lo hi) {l : List UInt8} (hlo : lo ≤ virt)
    (hhi : virt + l.length ≤ hi) (hpage : virt % pageSize + l.length ≤ pageSize) (hl : l ≠ []) :
    Copied t lo hi mem (Bytes.store mem (vmmTranslate t virt) l) virt l := by
  have hpos : 0 < l.length := List.length_pos_of_ne_nil hl
  have hmapped := h.mapped virt hlo (by omega)
  have hphys : ∀ k < l.length, vmmTranslate t (virt + k) = vmmTranslate t virt + k := fun k hk =>
    vmmTranslate_add hmapped (by omega)
  have hback : ∀ va, lo ≤ va → va < hi → vmmTranslate t virt ≤ vmmTranslate t va →
      vmmTranslate t va < vmmTranslate t virt + l.length →
      va = virt + (vmmTranslate t va - vmmTranslate t virt) := by
    intro va h₁ h₂ h₃ h₄
    apply h.injective va _ h₁ h₂ (by omega) (by omega)
    rw [hphys _ (by omega)]
    omega
  constructor
  · intro va h₁ h₂
    by_cases hin : virt ≤ va ∧ va < virt + l.length
    · have hva := hphys (va - virt) (by omega)
      rw [Nat.add_sub_cancel' hin.1] at hva
      have hk : vmmTranslate t va - vmmTranslate t virt = va - virt := by omega
      have hrange : vmmTranslate t virt ≤ vmmTranslate t va ∧
          vmmTranslate t va < vmmTranslate t virt + l.length := by omega
      change Bytes.store mem _ l (vmmTranslate t va) = _
      unfold Bytes.store
      rw [if_pos hrange, if_pos hin, hk]
    · have hout : ¬ (vmmTranslate t virt ≤ vmmTranslate t va ∧
          vmmTranslate t va < vmmTranslate t virt + l.length) := by
        rintro ⟨h₃, h₄⟩
        have := hback va h₁ h₂ h₃ h₄
        omega
      change Bytes.store mem _ l (vmmTranslate t va) = _
      rw [Bytes.store_of_not_mem hout, Bytes.store_of_not_mem hin]
      rfl
  · intro a ha
    apply Bytes.store_of_not_mem
    rintro ⟨h₃, h₄⟩
    apply ha (virt + (a - vmmTranslate t virt)) (by omega) (by omega)
    rw [hphys _ (by omega)]
    omega

lemma Copied.trans {mem₁ : ℕ → UInt8} {l l' : List UInt8} {n : ℕ} (hn : l.length = n)
    (h : Copied t lo hi mem mem₁ virt l) (k : Copied t lo hi mem₁ mem' (virt + n) l') :
    Copied t lo hi mem mem' virt (l ++ l') := by
  subst hn
  refine ⟨fun va h₁ h₂ => ?_, fun a ha => (k.kept a ha).trans (h.kept a ha)⟩
  rw [k.seen va h₁ h₂, ← Bytes.store_append]
  by_cases hin : virt + l.length ≤ va ∧ va < virt + l.length + l'.length
  · unfold Bytes.store
    rw [if_pos hin, if_pos hin]
  · rw [Bytes.store_of_not_mem hin, Bytes.store_of_not_mem hin, h.seen va h₁ h₂]

lemma Window.copyChunks (h : Window t lo hi) (n : ℕ) (hn : src.length ≤ n) (hlo : lo ≤ virt)
    (hhi : virt + src.length ≤ hi) :
    (copyChunks t n mem virt src).1 = true ∧
      Copied t lo hi mem (copyChunks t n mem virt src).2 virt src := by
  induction n generalizing mem virt src with
  | zero =>
    obtain rfl : src = [] := List.eq_nil_of_length_eq_zero (Nat.le_zero.1 hn)
    refine ⟨rfl, fun va _ _ => ?_, fun a _ => rfl⟩
    rw [Bytes.store_nil]
    rfl
  | succ n ih =>
    unfold Memory.copyChunks
    by_cases hnil : src = []
    · rw [if_pos hnil]
      refine ⟨rfl, fun va _ _ => ?_, fun a _ => rfl⟩
      rw [hnil, Bytes.store_nil]
    · have hpos : 0 < src.length := List.length_pos_of_ne_nil hnil
      have hmod := Nat.mod_lt virt (show 0 < pageSize by decide)
      have hmapped := h.mapped virt hlo (by omega)
      rw [if_neg hnil]
      dsimp only
      rw [if_neg hmapped]
      generalize hchunk : min src.length (pageSize - virt % pageSize) = chunk
      have hle : chunk ≤ src.length := hchunk ▸ min_le_left _ _
      have hpage : chunk ≤ pageSize - virt % pageSize := hchunk ▸ min_le_right _ _
      have hpos' : 0 < chunk := by
        rw [← hchunk]
        exact lt_min hpos (by omega)
      have htake : (src.take chunk).length = chunk := List.length_take_of_le hle
      have hdrop : (src.drop chunk).length = src.length - chunk := List.length_drop
      generalize hm₁ : Bytes.store mem (vmmTranslate t virt) (src.take chunk) = mem₁
      have hone : Copied t lo hi mem mem₁ virt (src.take chunk) := by
        rw [← hm₁]
        exact h.store hlo (by omega) (by omega) (List.ne_nil_of_length_pos (by omega))
      obtain ⟨hok, hrest⟩ : (Memory.copyChunks t n mem₁ (virt + chunk) (src.drop chunk)).1 = true ∧
          Copied t lo hi mem₁ (Memory.copyChunks t n mem₁ (virt + chunk) (src.drop chunk)).2
            (virt + chunk) (src.drop chunk) := ih (by omega) (by omega) (by omega)
      refine ⟨hok, ?_⟩
      have hall := hone.trans htake hrest
      rwa [List.take_append_drop] at hall

lemma Window.copyToSpace (h : Window t lo hi) (hlo : lo ≤ virt) (hhi : virt + src.length ≤ hi) :
    (vmmCopyToSpace t mem virt src).1 = true ∧
      Copied t lo hi mem (vmmCopyToSpace t mem virt src).2 virt src :=
  h.copyChunks src.length le_rfl hlo hhi

end MyOS.Memory
