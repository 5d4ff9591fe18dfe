import MyOS.Library.Sums

/-! Radix trees: a key is looked up digit by digit, from the most significant one. -/

namespace MyOS.Library.Radix

open Sums Function

structure Node (α : Type) where
  label : ℕ
  entry : ℕ → Option α

def Node.set {α : Type} (t : Node α) (i : ℕ) (c : Option α) : Node α :=
  { t with entry := update t.entry i c }

def Node.empty {α : Type} (w : ℕ) (t : Node α) : Bool :=
  (List.range w).all fun i => (t.entry i).isNone

abbrev Tree (α : Type) : ℕ → Type
  | 0 => α
  | n + 1 => Node (Tree α n)

variable {α : Type} (b : ℕ) (w : ℕ → ℕ)

def digit (n k : ℕ) : ℕ := k / b ^ n % b

def lookup : (n : ℕ) → Tree α (n + 1) → ℕ → Option α
  | 0, (t : Node α), k => t.entry (digit b 0 k)
  | n + 1, (t : Node (Tree α (n + 1))), k =>
    match t.entry (digit b (n + 1) k) with
    | none => none
    | some c => lookup n c k

def HasPath : (n : ℕ) → Tree α (n + 1) → ℕ → Prop
  | 0, _, _ => True
  | n + 1, (t : Node (Tree α (n + 1))), k =>
    ∃ c, t.entry (digit b (n + 1) k) = some c ∧ HasPath n c k

def setLeaf : (n : ℕ) → Tree α (n + 1) → ℕ → Option α → Tree α (n + 1)
  | 0, (t : Node α), k, v => t.set (digit b 0 k) v
  | n + 1, (t : Node (Tree α (n + 1))), k, v =>
    match t.entry (digit b (n + 1) k) with
    | none => t
    | some c => t.set (digit b (n + 1) k) (some (setLeaf n c k v))

def sum (f : α → ℕ) (g : ℕ → ℕ) : (n : ℕ) → Tree α n → ℕ
  | 0, (a : α) => f a
  | n + 1, (t : Node (Tree α n)) =>
    g t.label + ((List.range (w n)).map fun i => (t.entry i).elim 0 (sum f g n)).sum

def keys : (n : ℕ) → Tree α (n + 1) → List ℕ
  | 0, (t : Node α) => (List.range (w 0)).filter fun i => (t.entry i).isSome
  | n + 1, (t : Node (Tree α (n + 1))) =>
    (List.range (w (n + 1))).flatMap fun i =>
      (t.entry i).elim [] fun c => (keys n c).map fun k => i * b ^ (n + 1) + k

def Agree (n k l : ℕ) : Prop := ∀ j ≤ n, digit b j k = digit b j l

instance (n k l : ℕ) : Decidable (Agree b n k l) := by
  unfold Agree
  infer_instance

def Fits (n k : ℕ) : Prop := ∀ j ≤ n, digit b j k < w j

variable {b w}

lemma Agree.eq {n k l : ℕ} (h : Agree b n k l) (hk : k < b ^ (n + 1)) (hl : l < b ^ (n + 1)) :
    k = l := by
  suffices hmod : k % b ^ (n + 1) = l % b ^ (n + 1) by
    rwa [Nat.mod_eq_of_lt hk, Nat.mod_eq_of_lt hl] at hmod
  clear hk hl
  induction n with
  | zero =>
    have := h 0 le_rfl
    simpa [digit] using this
  | succ n ih =>
    have hlow := ih fun j hj => h j (by omega)
    have htop : k / b ^ (n + 1) % b = l / b ^ (n + 1) % b := h (n + 1) le_rfl
    rw [Nat.mod_pow_succ, Nat.mod_pow_succ (k := n + 1), hlow, htop]

lemma agree_succ {n k l : ℕ} : Agree b (n + 1) k l ↔
    digit b (n + 1) k = digit b (n + 1) l ∧ Agree b n k l := by
  constructor
  · exact fun h => ⟨h (n + 1) le_rfl, fun j hj => h j (by omega)⟩
  · rintro ⟨htop, h⟩ j hj
    rcases Nat.lt_or_eq_of_le hj with hlt | rfl
    · exact h j (by omega)
    · exact htop

lemma Agree.refl (n k : ℕ) : Agree b n k k := fun _ _ => rfl

lemma Node.set_entry_self (t : Node α) (i : ℕ) (c : Option α) : (t.set i c).entry i = c :=
  update_self ..

lemma Node.set_entry_ne (t : Node α) {i j : ℕ} (c : Option α) (h : j ≠ i) :
    (t.set i c).entry j = t.entry j := update_of_ne h ..

lemma Node.empty_iff {t : Node α} {v : ℕ} : t.empty v = true ↔ ∀ i < v, t.entry i = none := by
  simp [Node.empty]

section Lookup

variable {n k l : ℕ} {v : Option α}

lemma hasPath_of_lookup {n : ℕ} {t : Tree α (n + 1)} {a : α} (h : lookup b n t k = some a) :
    HasPath b n t k := by
  induction n with
  | zero => trivial
  | succ n ih =>
    simp only [lookup] at h
    split at h
    · cases h
    · rename_i c hc
      exact ⟨c, hc, ih h⟩

lemma lookup_setLeaf {t : Tree α (n + 1)} (h : HasPath b n t k) :
    lookup b n (setLeaf b n t k v) l = if Agree b n k l then v else lookup b n t l := by
  induction n with
  | zero =>
    by_cases hkl : digit b 0 k = digit b 0 l
    · have ha : Agree b 0 k l := fun j hj => by
        obtain rfl : j = 0 := by omega
        exact hkl
      rw [if_pos ha, lookup, setLeaf, ← hkl]
      exact Node.set_entry_self ..
    · rw [if_neg fun ha => hkl (ha 0 le_rfl), lookup, setLeaf]
      exact Node.set_entry_ne _ _ (Ne.symm hkl)
  | succ n ih =>
    obtain ⟨c, hc, hp⟩ := h
    have hset : setLeaf b (n + 1) t k v =
        Node.set t (digit b (n + 1) k) (some (setLeaf b n c k v)) := by
      rw [setLeaf, hc]
    rw [hset, lookup]
    by_cases hkl : digit b (n + 1) k = digit b (n + 1) l
    · have hl : lookup b (n + 1) t l = lookup b n c l := by
        rw [lookup, ← hkl, hc]
      rw [← hkl, Node.set_entry_self, hl]
      simp only [ih hp, agree_succ, hkl, true_and]
    · rw [Node.set_entry_ne _ _ (Ne.symm hkl), if_neg fun ha => hkl (ha (n + 1) le_rfl)]
      rfl

lemma lookup_set {t : Node (Tree α (n + 1))} {i : ℕ} {c : Option (Tree α (n + 1))} :
    lookup b (n + 1) (t.set i c : Node (Tree α (n + 1))) l =
      if digit b (n + 1) l = i then c.elim none fun c => lookup b n c l
      else lookup b (n + 1) (t : Node (Tree α (n + 1))) l := by
  rw [lookup]
  by_cases hi : digit b (n + 1) l = i
  · rw [if_pos hi, hi, Node.set_entry_self]
    cases c <;> rfl
  · rw [if_neg hi, Node.set_entry_ne _ _ hi]
    rfl

lemma lookup_entry {t : Node (Tree α (n + 1))} :
    lookup b (n + 1) (t : Node (Tree α (n + 1))) l =
      (t.entry (digit b (n + 1) l)).elim none fun c => lookup b n c l := by
  rw [lookup]
  cases t.entry (digit b (n + 1) l) <;> rfl

lemma lookup_of_empty (hb : 0 < b) {t : Tree α (n + 1)} (h : Node.empty b t = true) :
    lookup b n t l = none := by
  have hnone : t.entry (digit b n l) = none := Node.empty_iff.1 h _ (Nat.mod_lt _ hb)
  cases n with
  | zero => exact hnone
  | succ n => rw [lookup, hnone]

end Lookup

section Sum

variable {f : α → ℕ} {g : ℕ → ℕ} {n k : ℕ} {v : Option α}

lemma sum_set {t : Node (Tree α n)} {i : ℕ} (hi : i < w n) (c : Option (Tree α n)) :
    sum w f g (n + 1) (t.set i c : Node (Tree α n)) + (t.entry i).elim 0 (sum w f g n) =
      sum w f g (n + 1) (t : Node (Tree α n)) + c.elim 0 (sum w f g n) := by
  have hup := sum_map_update List.nodup_range (List.mem_range.2 hi)
    (f := fun j => (t.entry j).elim 0 (sum w f g n))
    (g := fun j => ((t.set i c).entry j).elim 0 (sum w f g n))
    fun j _ hj => by rw [Node.set_entry_ne _ _ hj]
  rw [Node.set_entry_self] at hup
  have hlabel : (t.set i c).label = t.label := rfl
  simp only [sum, hlabel]
  omega

lemma sum_entry {t : Node (Tree α n)} {i : ℕ} (hi : i < w n) :
    sum w f g (n + 1) (t : Node (Tree α n)) =
      sum w f g (n + 1) (t.set i none : Node (Tree α n)) + (t.entry i).elim 0 (sum w f g n) :=
  (sum_set hi none).symm

lemma sum_set_some {t : Node (Tree α n)} {i : ℕ} (hi : i < w n) (c : Tree α n) :
    sum w f g (n + 1) (t.set i (some c) : Node (Tree α n)) =
      sum w f g (n + 1) (t.set i none : Node (Tree α n)) + sum w f g n c := by
  have hset : (t.set i (some c)).set i none = t.set i none := by
    rw [Node.set, Node.set, Node.set, update_idem]
  have h := sum_entry (f := f) (g := g) (t := t.set i (some c)) hi
  rw [hset, Node.set_entry_self] at h
  exact h

lemma sum_of_empty {t : Node (Tree α n)} (h : ∀ i < w n, t.entry i = none) :
    sum w f g (n + 1) (t : Node (Tree α n)) = g t.label := by
  have hzero : ((List.range (w n)).map fun i => (t.entry i).elim 0 (sum w f g n)).sum = 0 := by
    rw [List.sum_eq_zero_iff]
    intro x hx
    obtain ⟨i, hi, rfl⟩ := List.mem_map.1 hx
    rw [h i (List.mem_range.1 hi)]
    rfl
  rw [sum, hzero, Nat.add_zero]

lemma sum_setLeaf {t : Tree α (n + 1)} (h : HasPath b n t k) (hk : Fits b w n k) :
    sum w f g (n + 1) (setLeaf b n t k v) + (lookup b n t k).elim 0 f =
      sum w f g (n + 1) t + v.elim 0 f := by
  induction n with
  | zero => exact sum_set (n := 0) (hk 0 le_rfl) v
  | succ n ih =>
    obtain ⟨c, hc, hp⟩ := h
    have hrec := ih hp fun j hj => hk j (by omega)
    have hset : setLeaf b (n + 1) t k v =
        Node.set t (digit b (n + 1) k) (some (setLeaf b n c k v)) := by
      rw [setLeaf, hc]
    have hlook : lookup b (n + 1) t k = lookup b n c k := by rw [lookup, hc]
    have hsum := sum_set (f := f) (g := g) (t := t) (hk (n + 1) le_rfl)
      (some (setLeaf b n c k v))
    rw [hc] at hsum
    simp only [Option.elim_some] at hsum
    rw [hset, hlook]
    omega

lemma le_sum_of_lookup {t : Tree α (n + 1)} (hk : Fits b w n k) :
    (lookup b n t k).elim 0 f ≤ sum w f g (n + 1) t := by
  cases hl : lookup b n t k with
  | none => exact Nat.zero_le _
  | some a =>
    have := sum_setLeaf (f := f) (g := g) (v := none) (hasPath_of_lookup hl) hk
    rw [hl] at this
    simp only [Option.elim_some, Option.elim_none] at this ⊢
    omega

lemma le_sum_of_two {t : Tree α (n + 1)} {l : ℕ} (hk : Fits b w n k) (hl : Fits b w n l)
    (hne : ¬ Agree b n k l) :
    (lookup b n t k).elim 0 f + (lookup b n t l).elim 0 f ≤ sum w f g (n + 1) t := by
  cases hlk : lookup b n t k with
  | none =>
    simp only [Option.elim_none, Nat.zero_add]
    exact le_sum_of_lookup hl
  | some a =>
    have hset := sum_setLeaf (f := f) (g := g) (v := none) (hasPath_of_lookup hlk) hk
    have hle := le_sum_of_lookup (f := f) (g := g) (t := setLeaf b n t k none) hl
    rw [lookup_setLeaf (hasPath_of_lookup hlk), if_neg hne] at hle
    rw [hlk] at hset
    simp only [Option.elim_some, Option.elim_none] at hset ⊢
    omega

end Sum

section Keys

variable {n k : ℕ}

lemma digit_add_mul {i j : ℕ} (hk : k < b ^ (n + 1)) (hj : j ≤ n) :
    digit b j (i * b ^ (n + 1) + k) = digit b j k := by
  have hpow : b ^ (n + 1) = b ^ j * b * b ^ (n - j) := by
    rw [← pow_succ, ← pow_add]
    congr 1
    omega
  have hb : 0 < b := by
    rcases Nat.eq_zero_or_pos b with rfl | h
    · simp at hk
    · exact h
  have hsplit : i * b ^ (n + 1) + k = b ^ j * (b * (b ^ (n - j) * i)) + k := by
    rw [hpow]
    ring
  rw [digit, digit, hsplit, Nat.mul_add_div (Nat.pow_pos hb), Nat.mul_add_mod]

lemma digit_top {i : ℕ} (hk : k < b ^ (n + 1)) (hi : i < b) :
    digit b (n + 1) (i * b ^ (n + 1) + k) = i := by
  have hpos : 0 < b ^ (n + 1) := by omega
  rw [digit, Nat.mul_comm i, Nat.mul_add_div hpos, Nat.div_eq_of_lt hk, add_zero,
    Nat.mod_eq_of_lt hi]

lemma lookup_congr {l : ℕ} {t : Tree α (n + 1)} (h : Agree b n k l) :
    lookup b n t k = lookup b n t l := by
  induction n with
  | zero => rw [lookup, lookup, h 0 le_rfl]
  | succ n ih =>
    obtain ⟨htop, hlow⟩ := agree_succ.1 h
    rw [lookup, lookup, htop]
    split
    · rfl
    · exact ih hlow

lemma agree_add_mul {i : ℕ} (hk : k < b ^ (n + 1)) : Agree b n (i * b ^ (n + 1) + k) k :=
  fun _ hj => digit_add_mul hk hj

lemma fits_succ : Fits b w (n + 1) k ↔ digit b (n + 1) k < w (n + 1) ∧ Fits b w n k := by
  constructor
  · exact fun h => ⟨h (n + 1) le_rfl, fun j hj => h j (by omega)⟩
  · rintro ⟨htop, h⟩ j hj
    rcases Nat.lt_or_eq_of_le hj with hlt | rfl
    · exact h j (by omega)
    · exact htop

lemma Fits.congr {l : ℕ} (h : Fits b w n k) (ha : Agree b n l k) : Fits b w n l :=
  fun j hj => ha j hj ▸ h j hj

lemma mem_keys (hw : ∀ j, w j ≤ b) {t : Tree α (n + 1)} :
    k ∈ keys b w n t ↔ (lookup b n t k).isSome = true ∧ Fits b w n k ∧ k < b ^ (n + 1) := by
  induction n generalizing k with
  | zero =>
    have hw0 := hw 0
    simp only [keys, List.mem_filter, List.mem_range, lookup, Fits, digit, pow_zero, Nat.div_one,
      Nat.le_zero, forall_eq, zero_add, pow_one]
    constructor
    · rintro ⟨hk, hs⟩
      rw [Nat.mod_eq_of_lt (by omega)]
      exact ⟨hs, hk, by omega⟩
    · rintro ⟨hs, hk, hb⟩
      rw [Nat.mod_eq_of_lt hb] at hs hk
      exact ⟨hk, hs⟩
  | succ n ih =>
    have hwn := hw (n + 1)
    simp only [keys, List.mem_flatMap, List.mem_range]
    constructor
    · rintro ⟨i, hi, hm⟩
      cases hc : t.entry i with
      | none => simp [hc] at hm
      | some c =>
        simp only [hc, Option.elim_some, List.mem_map] at hm
        obtain ⟨k, hk, rfl⟩ := hm
        obtain ⟨hs, hfit, hlt⟩ := ih.1 hk
        have htop : digit b (n + 1) (i * b ^ (n + 1) + k) = i := digit_top hlt (by omega)
        have hagree : Agree b n (i * b ^ (n + 1) + k) k := agree_add_mul hlt
        refine ⟨?_, fits_succ.2 ⟨by omega, hfit.congr hagree⟩, ?_⟩
        · rw [lookup, htop, hc]
          simp only [lookup_congr hagree, hs]
        · have hmul := Nat.mul_le_mul_right (b ^ (n + 1)) (by omega : i + 1 ≤ b)
          have hpow : b ^ (n + 1 + 1) = b * b ^ (n + 1) := pow_succ' ..
          rw [Nat.add_mul, one_mul] at hmul
          omega
    · rintro ⟨hs, hfit, hlt⟩
      obtain ⟨htop, hlow⟩ := fits_succ.1 hfit
      have hpos : 0 < b ^ (n + 1) := by
        rcases Nat.eq_zero_or_pos b with rfl | hb
        · simp at hlt
        · exact Nat.pow_pos hb
      have hdiv : digit b (n + 1) k = k / b ^ (n + 1) :=
        Nat.mod_eq_of_lt (Nat.div_lt_of_lt_mul (by rwa [← pow_succ]))
      have hmod := Nat.mod_lt k hpos
      have hsplit : k / b ^ (n + 1) * b ^ (n + 1) + k % b ^ (n + 1) = k := by
        rw [Nat.mul_comm, Nat.div_add_mod]
      have hagree : Agree b n k (k % b ^ (n + 1)) := by
        have := agree_add_mul (i := k / b ^ (n + 1)) hmod
        rwa [hsplit] at this
      refine ⟨digit b (n + 1) k, htop, ?_⟩
      rw [lookup] at hs
      cases hc : t.entry (digit b (n + 1) k) with
      | none => simp [hc] at hs
      | some c =>
        simp only [hc, Option.elim_some, List.mem_map] at hs ⊢
        refine ⟨k % b ^ (n + 1), ih.2 ⟨?_, fun j hj => hagree j hj ▸ hlow j hj, hmod⟩, ?_⟩
        · rwa [← lookup_congr hagree]
        · rw [hdiv, hsplit]

lemma keys_nodup (hw : ∀ j, w j ≤ b) (t : Tree α (n + 1)) : (keys b w n t).Nodup := by
  induction n with
  | zero => exact List.nodup_range.filter _
  | succ n ih =>
    rw [keys, List.nodup_flatMap]
    refine ⟨fun i _ => ?_, List.nodup_range.pairwise_of_forall_ne fun i _ j _ hij => ?_⟩
    · cases t.entry i with
      | none => exact List.nodup_nil
      | some c => exact (ih c).map fun _ _ h => Nat.add_left_cancel h
    · rw [Function.onFun, List.disjoint_left]
      intro k hi hj
      have hkey : ∀ i, k ∈ (t.entry i).elim [] (fun c => (keys b w n c).map fun k =>
          i * b ^ (n + 1) + k) → k / b ^ (n + 1) = i := by
        intro i hm
        cases hc : t.entry i with
        | none => simp [hc] at hm
        | some c =>
          simp only [hc, Option.elim_some, List.mem_map] at hm
          obtain ⟨l, hl, rfl⟩ := hm
          have hlt := ((mem_keys hw).1 hl).2.2
          rw [Nat.mul_comm, Nat.mul_add_div (by omega), Nat.div_eq_of_lt hlt, add_zero]
      exact hij ((hkey i hi).symm.trans (hkey j hj))

lemma Fits.add_mul {i : ℕ} (hi : i < w (n + 1)) (hw : ∀ j, w j ≤ b) (hk : k < b ^ (n + 1))
    (h : Fits b w n k) : Fits b w (n + 1) (i * b ^ (n + 1) + k) :=
  fits_succ.2 ⟨by rwa [digit_top hk (hi.trans_le (hw _))], h.congr (agree_add_mul hk)⟩

lemma sum_le_sum (hw : ∀ j, w j ≤ b) {f : α → ℕ} {t t' : Tree α (n + 1)}
    (h : ∀ k < b ^ (n + 1), Fits b w n k → (lookup b n t' k).elim 0 f ≤ (lookup b n t k).elim 0 f) :
    sum w f (fun _ => 0) (n + 1) t' ≤ sum w f (fun _ => 0) (n + 1) t := by
  induction n with
  | zero =>
    refine Nat.add_le_add_left (List.sum_le_sum fun i hi => ?_) 0
    have hib : i < b := (List.mem_range.1 hi).trans_le (hw 0)
    have hdig : digit b 0 i = i := by rw [digit, pow_zero, Nat.div_one, Nat.mod_eq_of_lt hib]
    have hfit : Fits b w 0 i := by
      intro j hj
      obtain rfl := Nat.le_zero.1 hj
      exact hdig.symm ▸ List.mem_range.1 hi
    have hi' := h i (by rwa [zero_add, pow_one]) hfit
    rwa [lookup, lookup, hdig] at hi'
  | succ n ih =>
    refine Nat.add_le_add_left (List.sum_le_sum fun i hi => ?_) 0
    have hiw := List.mem_range.1 hi
    have hbound : ∀ k < b ^ (n + 1), i * b ^ (n + 1) + k < b ^ (n + 1 + 1) := by
      intro k hk
      have hle : i + 1 ≤ b := hiw.trans_le (hw _)
      have hmul := Nat.mul_le_mul_right (b ^ (n + 1)) hle
      rw [Nat.add_mul, one_mul] at hmul
      rw [pow_succ' b (n + 1)]
      omega
    -- the keys whose first digit is `i` are those of the two subtrees
    have hsub : ∀ (u : Node (Tree α (n + 1))) (k : ℕ), k < b ^ (n + 1) →
        lookup b (n + 1) u (i * b ^ (n + 1) + k) = (u.entry i).elim none fun c => lookup b n c k := by
      intro u k hk
      rw [lookup_entry, digit_top hk (hiw.trans_le (hw _))]
      cases u.entry i with
      | none => rfl
      | some c => exact lookup_congr (agree_add_mul hk)
    have hrec := fun k hk hfit => h _ (hbound k hk) (Fits.add_mul hiw hw hk hfit)
    cases hc' : t'.entry i with
    | none => exact Nat.zero_le _
    | some c' =>
      cases hc : t.entry i with
      | some c =>
        refine ih fun k hk hfit => ?_
        simpa only [hsub _ k hk, hc, hc', Option.elim_some] using hrec k hk hfit
      | none =>
        have hnone : sum w f (fun _ => 0) (n + 1) (⟨0, fun _ => none⟩ : Node (Tree α n)) = 0 :=
          sum_of_empty fun _ _ => rfl
        refine (ih fun k hk hfit => ?_).trans_eq hnone
        have hk' := hrec k hk hfit
        rw [hsub _ k hk, hsub _ k hk, hc, hc'] at hk'
        exact hk'.trans (Nat.zero_le _)

end Keys

end MyOS.Library.Radix
