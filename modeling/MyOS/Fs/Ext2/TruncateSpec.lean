import MyOS.Fs.Ext2.Truncate

/-! The trees below an inode, and what truncating them frees and keeps. -/

namespace MyOS.Fs.Ext2

open Library Positional Function

def below (apb : ℕ) (m : Cells) : ℕ → Cell → Set Cell
  | 0, c => {c}
  | d + 1, c => {k | k = c ∨ m c ≠ 0 ∧ ∃ i < apb, k ∈ below apb m d (.ptr (m c) i)}

def IsTree (apb : ℕ) (m : Cells) : ℕ → Cell → Prop
  | 0, _ => True
  | d + 1, c => m c ≠ 0 →
    (∀ i < apb, IsTree apb m d (.ptr (m c) i) ∧ c ∉ below apb m d (.ptr (m c) i)) ∧
    ∀ i < apb, ∀ j < apb, i ≠ j → Disjoint (below apb m d (.ptr (m c) i)) (below apb m d (.ptr (m c) j))

def Opens (e : Reading) (apb keep : ℕ) (m : Cells) : ℕ → ℕ → ℕ → List ℕ → Prop
  | d + 1, base, p, i :: is => e.bread p = true ∧ (keep ≤ base → e.kmalloc p = true) ∧
    Opens e apb keep m d (base + i * apb ^ d) (m (.ptr p i)) is
  | _, _, _, _ => True

def truncCell (e : Reading) (apb keep d base : ℕ) (c : Cell) (m : Cells) : Cells × List ℕ :=
  (update (truncTree e apb keep d base (m c) m).2.1 c (truncTree e apb keep d base (m c) m).1,
    (truncTree e apb keep d base (m c) m).2.2)

variable {e : Reading} {apb keep d base p i : ℕ} {c : Cell} {m n : Cells} {is js : List ℕ} {b : ℕ}

section Below

lemma self_mem_below : c ∈ below apb m d c := by
  cases d with
  | zero => rfl
  | succ d => exact .inl rfl

lemma child_subset_below (hp : m c ≠ 0) (hi : i < apb) :
    below apb m d (.ptr (m c) i) ⊆ below apb m (d + 1) c :=
  fun _ hk => .inr ⟨hp, i, hi, hk⟩

lemma follow_congr (hn : ∀ k ∈ below apb m d c, n k = m k) (h : Prefix apb d is) :
    follow n (n c) is = follow m (m c) is := by
  induction is generalizing d c with
  | nil => exact hn c self_mem_below
  | cons i is ih =>
    cases d with
    | zero => exact absurd h not_prefix_zero
    | succ d =>
      obtain ⟨hi, his⟩ := prefix_cons.1 h
      rw [follow, follow, hn c self_mem_below]
      split_ifs with hp
      · rfl
      · exact ih (fun k hk => hn k (child_subset_below hp hi hk)) his

lemma freeTree_congr (hn : ∀ k ∈ below apb m d c, n k = m k) :
    freeTree e apb n d (m c) = freeTree e apb m d (m c) := by
  induction d generalizing c with
  | zero => rfl
  | succ d ih =>
    rw [freeTree, freeTree]
    split_ifs with hp ho
    · rfl
    · congr 1
      refine List.flatMap_congr fun i hi => ?_
      have hsub := child_subset_below (d := d) hp (List.mem_range.1 hi)
      rw [hn _ (hsub self_mem_below)]
      exact ih fun k hk => hn k (hsub hk)
    · rfl

end Below

section Loop

lemma truncTree_kept (ha : 0 < apb) (h : p = 0 ∨ base + apb ^ d ≤ keep) :
    truncTree e apb keep d base p m = (p, m, []) := by
  have hpos : 0 < apb ^ d := Nat.pow_pos ha
  cases d with
  | zero =>
    rw [truncTree]
    split_ifs with hp hb
    · rfl
    · rw [pow_zero] at h
      omega
    · rfl
  | succ d =>
    rw [truncTree]
    dsimp only
    split_ifs with hp hb hs
    · rfl
    · omega
    · rfl
    · rfl
    · rw [pow_succ] at h
      omega

lemma loop_eq (ha : 0 < apb) : (if base + i * apb ^ d + apb ^ d ≤ keep ∨ m (.ptr p i) = 0 then (m, [])
      else
        (if (truncTree e apb keep d (base + i * apb ^ d) (m (.ptr p i)) m).1 ≠
            (truncTree e apb keep d (base + i * apb ^ d) (m (.ptr p i)) m).2.1 (.ptr p i) then
          update (truncTree e apb keep d (base + i * apb ^ d) (m (.ptr p i)) m).2.1 (.ptr p i)
            (truncTree e apb keep d (base + i * apb ^ d) (m (.ptr p i)) m).1
        else (truncTree e apb keep d (base + i * apb ^ d) (m (.ptr p i)) m).2.1,
        (truncTree e apb keep d (base + i * apb ^ d) (m (.ptr p i)) m).2.2)) =
    truncCell e apb keep d (base + i * apb ^ d) (.ptr p i) m := by
  unfold truncCell
  split_ifs with h hne
  · rw [truncTree_kept ha h.symm]
    simp
  · rfl
  · rw [not_not] at hne
    rw [hne, update_eq_self]

lemma truncTree_loop (ha : 0 < apb) (hp : p ≠ 0) (hb : base < keep) (hk : keep < base + apb ^ (d + 1))
    (hr : e.bread p = true) : truncTree e apb keep (d + 1) base p m =
      (p, runAll (fun i => truncCell e apb keep d (base + i * apb ^ d) (.ptr p i)) (List.range apb) m) := by
  rw [pow_succ] at hk
  rw [truncTree]
  dsimp only
  rw [if_neg hp, if_neg hb.not_ge, if_neg hk.not_ge, if_neg (by simp [hr])]
  simp only [loop_eq ha]

lemma truncTree_cases (ha : 0 < apb) :
    (∀ m, truncTree e apb keep (d + 1) base p m = (p, m, [])) ∧
      (p = 0 ∨ base < keep ∧ (base + apb ^ (d + 1) ≤ keep ∨ e.bread p = false)) ∨
    (∀ m, truncTree e apb keep (d + 1) base p m = (0, m, freeTree e apb m (d + 1) p)) ∧ p ≠ 0 ∧ keep ≤ base ∨
    (∀ m, truncTree e apb keep (d + 1) base p m =
      (p, runAll (fun i => truncCell e apb keep d (base + i * apb ^ d) (.ptr p i)) (List.range apb) m)) ∧
      p ≠ 0 ∧ base < keep ∧ e.bread p = true := by
  by_cases hp : p = 0
  · exact .inl ⟨fun m => truncTree_kept ha (.inl hp), .inl hp⟩
  by_cases hb : keep ≤ base
  · refine .inr (.inl ⟨fun m => ?_, hp, hb⟩)
    rw [truncTree]
    dsimp only
    rw [if_neg hp, if_pos hb]
  rw [not_le] at hb
  by_cases hk : base + apb ^ (d + 1) ≤ keep
  · exact .inl ⟨fun m => truncTree_kept ha (.inr hk), .inr ⟨hb, .inl hk⟩⟩
  cases hr : e.bread p with
  | false =>
    refine .inl ⟨fun m => ?_, .inr ⟨hb, .inr rfl⟩⟩
    rw [truncTree]
    dsimp only
    rw [if_neg hp, if_neg hb.not_ge, if_neg (by rwa [← pow_succ]), if_pos hr]
  | true => exact .inr (.inr ⟨fun m => truncTree_loop ha hp hb (not_le.1 hk) hr, hp, hb, rfl⟩)

end Loop

section Local

structure RunsChildren (e : Reading) (apb keep d base : ℕ) (c : Cell) (m n : Cells) : Prop where
  report : (runAll (fun i => truncCell e apb keep d (base + i * apb ^ d) (.ptr (m c) i)) (List.range apb) n).2 =
    (List.range apb).flatMap (fun i => (truncCell e apb keep d (base + i * apb ^ d) (.ptr (m c) i) m).2)
  inside : ∀ i ∈ List.range apb, ∀ k ∈ below apb m d (.ptr (m c) i),
    (runAll (fun i => truncCell e apb keep d (base + i * apb ^ d) (.ptr (m c) i)) (List.range apb) n).1 k =
      (truncCell e apb keep d (base + i * apb ^ d) (.ptr (m c) i) m).1 k
  outside : ∀ k, (∀ i ∈ List.range apb, k ∉ below apb m d (.ptr (m c) i)) →
    (runAll (fun i => truncCell e apb keep d (base + i * apb ^ d) (.ptr (m c) i)) (List.range apb) n).1 k = n k

lemma runChildren (hp : m c ≠ 0) (hlocal : ∀ i ∈ List.range apb, LocalAt (below apb m d (.ptr (m c) i)) m
      (truncCell e apb keep d (base + i * apb ^ d) (.ptr (m c) i)))
    (hdisj : ∀ i < apb, ∀ j < apb, i ≠ j → Disjoint (below apb m d (.ptr (m c) i)) (below apb m d (.ptr (m c) j)))
    (hn : ∀ k ∈ below apb m (d + 1) c, n k = m k) : RunsChildren e apb keep d base c m n := by
  have hsame : ∀ i ∈ List.range apb, ∀ k ∈ below apb m d (.ptr (m c) i), n k = m k :=
    fun i hi k hk => hn k (child_subset_below hp (List.mem_range.1 hi) hk)
  obtain ⟨hreport, hinside, houtside⟩ := runAll_local (F := fun i => below apb m d (.ptr (m c) i))
    List.nodup_range (fun i hi => (hlocal i hi).congr (hsame i hi)) fun i hi j hj =>
      hdisj i (List.mem_range.1 hi) j (List.mem_range.1 hj)
  refine ⟨?_, fun i hi k hk => ?_, houtside⟩
  · rw [hreport]
    exact List.flatMap_congr fun i hi => (hlocal i hi).report n (hsame i hi)
  · rw [hinside i hi k hk]
    exact (hlocal i hi).inside n (hsame i hi) k hk

lemma truncCell_local (ha : 0 < apb) (h : IsTree apb m d c) :
    LocalAt (below apb m d c) m (truncCell e apb keep d base c) := by
  induction d generalizing c base with
  | zero =>
    have hsame : ∀ n : Cells, truncCell e apb keep 0 base c n =
        (if n c = 0 then n else if keep ≤ base then update n c 0 else n,
          if n c = 0 then [] else if keep ≤ base then freeBlock e (n c) else []) := by
      intro n
      unfold truncCell truncTree freeTree
      split_ifs <;> simp
    constructor
    · intro n hn
      rw [hsame, hsame, hn c rfl]
    · rintro n hn k rfl
      rw [hsame, hsame, hn k rfl]
      split_ifs <;> simp [hn k rfl]
    · intro n hn k hk
      rw [hsame]
      have hkc : k ≠ c := hk
      split_ifs <;> simp [hkc]
  | succ d ih =>
    by_cases hp : m c = 0
    · refine LocalAt.of_id fun n hn => ?_
      have hsame : ∀ o : Cells, o c = 0 → truncCell e apb keep (d + 1) base c o = (o, []) := by
        intro o ho
        unfold truncCell
        rw [truncTree_kept ha (.inl ho)]
        simp
      rw [hsame n ((hn c self_mem_below).trans hp), hsame m hp]
      exact ⟨rfl, rfl⟩
    obtain ⟨hchild, hdisj⟩ := h hp
    have hsub : ∀ i ∈ List.range apb, below apb m d (.ptr (m c) i) ⊆ below apb m (d + 1) c :=
      fun i hi => child_subset_below hp (List.mem_range.1 hi)
    have hlocal : ∀ i ∈ List.range apb, LocalAt (below apb m d (.ptr (m c) i)) m
        (truncCell e apb keep d (base + i * apb ^ d) (.ptr (m c) i)) :=
      fun i hi => ih (hchild i (List.mem_range.1 hi)).1
    have hrun := fun (n : Cells) (hn : ∀ k ∈ below apb m (d + 1) c, n k = m k) => runChildren hp hlocal hdisj hn
    -- an address of the tree is its root's, or one of a child's
    have hmem : ∀ k ∈ below apb m (d + 1) c, k = c ∨ ∃ i ∈ List.range apb, k ∈ below apb m d (.ptr (m c) i) := by
      rintro k (hk | ⟨-, i, hi, hk⟩)
      · exact .inl hk
      · exact .inr ⟨i, List.mem_range.2 hi, hk⟩
    have hroot : ∀ i ∈ List.range apb, c ∉ below apb m d (.ptr (m c) i) :=
      fun i hi => (hchild i (List.mem_range.1 hi)).2
    obtain ⟨heq, -⟩ | ⟨heq, -⟩ | ⟨heq, -⟩ := truncTree_cases (e := e) (p := m c) ha
    · refine LocalAt.of_id fun n hn => ?_
      have hsame : ∀ o : Cells, o c = m c → truncCell e apb keep (d + 1) base c o = (o, []) := by
        intro o ho
        unfold truncCell
        rw [ho, heq, ← ho]
        simp
      rw [hsame n (hn c self_mem_below), hsame m rfl]
      exact ⟨rfl, rfl⟩
    · have hsame : ∀ o : Cells, o c = m c → truncCell e apb keep (d + 1) base c o =
          (update o c 0, freeTree e apb o (d + 1) (o c)) := by
        intro o ho
        rw [truncCell, ho, heq]
      constructor
      · intro n hn
        rw [hsame n (hn c self_mem_below), hsame m rfl]
        dsimp only
        rw [hn c self_mem_below]
        exact freeTree_congr hn
      · intro n hn k hk
        rw [hsame n (hn c self_mem_below), hsame m rfl]
        by_cases hkc : k = c
        · simp [hkc]
        · simp [hkc, hn k hk]
      · intro n hn k hk
        have hkc : k ≠ c := by
          rintro rfl
          exact hk self_mem_below
        rw [hsame n (hn c self_mem_below)]
        simp [hkc]
    · have hsame : ∀ o : Cells, o c = m c → truncCell e apb keep (d + 1) base c o = (update
          (runAll (fun i => truncCell e apb keep d (base + i * apb ^ d) (.ptr (m c) i)) (List.range apb) o).1
          c (m c),
          (runAll (fun i => truncCell e apb keep d (base + i * apb ^ d) (.ptr (m c) i)) (List.range apb) o).2) := by
        intro o ho
        rw [truncCell, ho, heq]
      constructor
      · intro n hn
        rw [hsame n (hn c self_mem_below), hsame m rfl]
        exact (hrun n hn).report.trans (hrun m fun _ _ => rfl).report.symm
      · intro n hn k hk
        rw [hsame n (hn c self_mem_below), hsame m rfl]
        obtain rfl | ⟨i, hi, hki⟩ := hmem k hk
        · simp
        · have hkc : k ≠ c := by
            rintro rfl
            exact hroot i hi hki
          simp only [update_of_ne hkc]
          rw [(hrun n hn).inside i hi k hki, (hrun m fun _ _ => rfl).inside i hi k hki]
      · intro n hn k hk
        have hkc : k ≠ c := by
          rintro rfl
          exact hk self_mem_below
        rw [hsame n (hn c self_mem_below)]
        simp only [update_of_ne hkc]
        exact (hrun n hn).outside k fun i hi hki => hk (hsub i hi hki)

end Local

section Freed

@[simp]
lemma follow_zero : follow m 0 is = 0 := by
  cases is <;> simp [follow]

@[simp]
lemma opens_nil : Opens e apb keep m d base p [] := by
  cases d <;> trivial

@[simp]
lemma freeTree_zero : freeTree e apb m d 0 = [] := by
  cases d <;> simp [freeTree]

lemma mem_freeBlock : b ∈ freeBlock e p ↔ b = p ∧ e.Frees p := by
  rw [freeBlock, Reading.Frees]
  split_ifs with hrange hbit
  · simp only [List.not_mem_nil, false_iff]
    omega
  · rw [List.mem_singleton]
    exact (and_iff_left ⟨by omega, by omega, hbit⟩).symm
  · simp [hbit]

lemma mem_freeTree (hk : keep ≤ base) : b ∈ freeTree e apb m d p ↔ ∃ is, Prefix apb d is ∧
    follow m p is = b ∧ b ≠ 0 ∧ Opens e apb keep m d base p is ∧ e.Frees b := by
  by_cases hp : p = 0
  · subst hp
    rw [freeTree_zero]
    simp only [List.not_mem_nil, follow_zero, false_iff]
    rintro ⟨is, -, hf, hb, -⟩
    exact hb hf.symm
  induction d generalizing p base with
  | zero =>
    rw [freeTree, if_neg hp, mem_freeBlock]
    constructor
    · rintro ⟨rfl, hfree⟩
      exact ⟨[], prefix_nil, rfl, hp, opens_nil, hfree⟩
    · rintro ⟨is, his, hf, -, -, hfree⟩
      cases is with
      | nil =>
        obtain rfl : p = b := hf
        exact ⟨rfl, hfree⟩
      | cons i is => exact absurd his not_prefix_zero
  | succ d ih =>
    rw [freeTree, if_neg hp, List.mem_append, mem_freeBlock]
    constructor
    · rintro (hb | ⟨rfl, hfree⟩)
      · split_ifs at hb with ho
        · obtain ⟨i, hi, hb⟩ := List.mem_flatMap.1 hb
          have hpi : m (.ptr p i) ≠ 0 := by
            intro hpi
            simp [hpi] at hb
          obtain ⟨is, his, hf, hb, hop, hfree⟩ := (ih (hk.trans (Nat.le_add_right _ (i * apb ^ d))) hpi).1 hb
          refine ⟨i :: is, prefix_cons.2 ⟨List.mem_range.1 hi, his⟩, ?_, hb, ⟨ho.1, fun _ => ho.2, hop⟩, hfree⟩
          rw [follow, if_neg hp, hf]
        · simp at hb
      · exact ⟨[], prefix_nil, rfl, hp, opens_nil, hfree⟩
    · rintro ⟨is, his, hf, hb, hop, hfree⟩
      cases is with
      | nil =>
        obtain rfl : p = b := hf
        exact .inr ⟨rfl, hfree⟩
      | cons i is =>
        obtain ⟨hi, his⟩ := prefix_cons.1 his
        obtain ⟨hread, hcopy, hop⟩ := hop
        rw [follow, if_neg hp] at hf
        have hpi : m (.ptr p i) ≠ 0 := by
          intro hpi
          rw [hpi, follow_zero] at hf
          exact hb hf.symm
        rw [if_pos ⟨hread, hcopy hk⟩]
        exact .inl (List.mem_flatMap.2 ⟨i, List.mem_range.2 hi,
          (ih (hk.trans (Nat.le_add_right _ _)) hpi).2 ⟨is, his, hf, hb, hop, hfree⟩⟩)

lemma IsTree.run (ha : 0 < apb) (h : IsTree apb m (d + 1) c) (hp : m c ≠ 0) :
    RunsChildren e apb keep d base c m m := by
  obtain ⟨hchild, hdisj⟩ := h hp
  exact runChildren hp (fun i hi => truncCell_local ha (hchild i (List.mem_range.1 hi)).1) hdisj fun _ _ => rfl

lemma mem_truncTree (ha : 0 < apb) (h : IsTree apb m d c) :
    b ∈ (truncTree e apb keep d base (m c) m).2.2 ↔ ∃ is, Prefix apb d is ∧ follow m (m c) is = b ∧ b ≠ 0 ∧
      keep ≤ base + value apb d is ∧ Opens e apb keep m d base (m c) is ∧ e.Frees b := by
  induction d generalizing c base with
  | zero =>
    have hval : ∀ is, value apb 0 is = 0 := fun is => by cases is <;> rfl
    rw [truncTree]
    split_ifs with hp hk
    · simp [hp]
      grind
    · rw [mem_freeTree hk]
      simp only [hval, Nat.add_zero, hk, true_and]
    · simp [hval, hk]
  | succ d ih =>
    obtain ⟨heq, hc⟩ | ⟨heq, hp, hk⟩ | ⟨heq, hp, hk, hread⟩ := truncTree_cases (e := e) (p := m c) ha
    · rw [heq]
      simp only [List.not_mem_nil, false_iff]
      rintro ⟨is, his, hf, hb, hle, hop⟩
      obtain hp | ⟨hk, hc⟩ := hc
      · rw [hp, follow_zero] at hf
        exact hb hf.symm
      cases is with
      | nil =>
        rw [value_nil] at hle
        omega
      | cons i is =>
        obtain hc | hc := hc
        · have hlt := value_lt his ha
          omega
        · simp [hop.1.1] at hc
    · rw [heq]
      dsimp only
      rw [mem_freeTree hk]
      simp only [hk.trans (Nat.le_add_right _ _), true_and]
    · rw [heq]
      dsimp only
      rw [(h.run ha hp).report, List.mem_flatMap]
      obtain ⟨hchild, -⟩ := h hp
      constructor
      · rintro ⟨i, hi, hb⟩
        have hi' := List.mem_range.1 hi
        obtain ⟨is, his, hf, hb, hle, hop, hfree⟩ := (ih (hchild i hi').1).1 hb
        refine ⟨i :: is, prefix_cons.2 ⟨hi', his⟩, ?_, hb, ?_, ⟨hread, fun hle => absurd hle hk.not_ge, hop⟩, hfree⟩
        · rw [follow, if_neg hp, hf]
        · rwa [value_cons, ← Nat.add_assoc]
      · rintro ⟨is, his, hf, hb, hle, hop⟩
        cases is with
        | nil =>
          rw [value_nil] at hle
          omega
        | cons i is =>
          obtain ⟨hi, his⟩ := prefix_cons.1 his
          rw [follow, if_neg hp] at hf
          rw [value_cons, ← Nat.add_assoc] at hle
          exact ⟨i, List.mem_range.2 hi, (ih (hchild i hi).1).2 ⟨is, his, hf, hb, hle, hop.1.2.2, hop.2⟩⟩

def Sole (apb : ℕ) (m : Cells) (d p : ℕ) : Prop := ∀ is js, Prefix apb d is → Prefix apb d js →
  follow m p is ≠ 0 → follow m p is = follow m p js → is = js

lemma Sole.child (h : Sole apb m (d + 1) p) (hp : p ≠ 0) (hi : i < apb) : Sole apb m d (m (.ptr p i)) := by
  intro is js his hjs hne heq
  have hcons : ∀ ks, follow m p (i :: ks) = follow m (m (.ptr p i)) ks := fun ks => by rw [follow, if_neg hp]
  have hlist := h (i :: is) (i :: js) (prefix_cons.2 ⟨hi, his⟩) (prefix_cons.2 ⟨hi, hjs⟩)
  rw [hcons, hcons] at hlist
  exact (List.cons.inj (hlist hne heq)).2

lemma Sole.nodup (h : Sole apb m (d + 1) p) (hp : p ≠ 0) {g : ℕ → List ℕ} (hg : ∀ i < apb, (g i).Nodup)
    (hmem : ∀ i < apb, ∀ b ∈ g i, b ≠ 0 ∧ ∃ is, Prefix apb d is ∧ follow m (m (.ptr p i)) is = b) :
    ((List.range apb).flatMap g).Nodup ∧ p ∉ (List.range apb).flatMap g := by
  have hcons : ∀ i ks, follow m p (i :: ks) = follow m (m (.ptr p i)) ks := fun i ks => by rw [follow, if_neg hp]
  constructor
  · refine List.nodup_flatMap.2 ⟨fun i hi => hg i (List.mem_range.1 hi), ?_⟩
    refine List.nodup_range.imp_of_mem fun {i j} hi hj hij b hbi hbj => hij ?_
    obtain ⟨hb, is, his, hfi⟩ := hmem i (List.mem_range.1 hi) b hbi
    obtain ⟨-, js, hjs, hfj⟩ := hmem j (List.mem_range.1 hj) b hbj
    have hlist := h (i :: is) (j :: js) (prefix_cons.2 ⟨List.mem_range.1 hi, his⟩)
      (prefix_cons.2 ⟨List.mem_range.1 hj, hjs⟩)
    rw [hcons, hcons, hfi, hfj] at hlist
    exact (List.cons.inj (hlist hb rfl)).1
  · intro hp'
    obtain ⟨i, hi, hpi⟩ := List.mem_flatMap.1 hp'
    obtain ⟨-, is, his, hf⟩ := hmem i (List.mem_range.1 hi) p hpi
    have hlist := h [] (i :: is) prefix_nil (prefix_cons.2 ⟨List.mem_range.1 hi, his⟩) hp
    rw [hcons, hf] at hlist
    simpa using hlist rfl

lemma nodup_freeBlock : (freeBlock e p).Nodup := by
  rw [freeBlock]
  split_ifs
  · exact List.nodup_nil
  · exact List.nodup_singleton p
  · exact List.nodup_nil

lemma nodup_freeTree (h : Sole apb m d p) : (freeTree e apb m d p).Nodup := by
  induction d generalizing p with
  | zero =>
    rw [freeTree]
    split_ifs
    · exact List.nodup_nil
    · exact nodup_freeBlock
  | succ d ih =>
    rw [freeTree]
    split_ifs with hp ho
    · exact List.nodup_nil
    · obtain ⟨hnodup, hnot⟩ := h.nodup hp (g := fun i => freeTree e apb m d (m (.ptr p i)))
        (fun i hi => ih (h.child hp hi)) fun i hi b hb => by
          obtain ⟨is, his, hf, hb, -⟩ := (mem_freeTree (le_refl 0)).1 hb
          exact ⟨hb, is, his, hf⟩
      refine List.nodup_append.2 ⟨hnodup, nodup_freeBlock, fun a ha b hb => ?_⟩
      rintro rfl
      exact hnot ((mem_freeBlock.1 hb).1 ▸ ha)
    · exact nodup_freeBlock

lemma nodup_truncTree (ha : 0 < apb) (h : IsTree apb m d c) (hs : Sole apb m d (m c)) :
    (truncTree e apb keep d base (m c) m).2.2.Nodup := by
  induction d generalizing c base with
  | zero =>
    rw [truncTree]
    split_ifs
    · exact List.nodup_nil
    · exact nodup_freeTree hs
    · exact List.nodup_nil
  | succ d ih =>
    obtain ⟨heq, -⟩ | ⟨heq, -⟩ | ⟨heq, hp, -⟩ := truncTree_cases (e := e) (p := m c) ha
    · rw [heq]
      exact List.nodup_nil
    · rw [heq]
      exact nodup_freeTree hs
    · rw [heq]
      dsimp only
      rw [(h.run ha hp).report]
      obtain ⟨hchild, -⟩ := h hp
      refine (hs.nodup hp (fun i hi => ih (hchild i hi).1 (hs.child hp hi)) fun i hi b hb => ?_).1
      obtain ⟨is, his, hf, hb, -⟩ := (mem_truncTree ha (hchild i hi).1).1 hb
      exact ⟨hb, is, his, hf⟩

lemma follow_truncCell (ha : 0 < apb) (h : IsTree apb m d c)
    (hn : ∀ k ∈ below apb m d c, n k = (truncCell e apb keep d base c m).1 k) (his : Prefix apb d is)
    (hlen : is.length = d) (hk : base + value apb d is < keep) : follow n (n c) is = follow m (m c) is := by
  induction d generalizing c base is with
  | zero =>
    obtain rfl := List.eq_nil_of_length_eq_zero hlen
    have hkeep : ¬ keep ≤ base := by
      rw [value_nil] at hk
      omega
    rw [follow, follow, hn c rfl, truncCell, truncTree, if_neg hkeep]
    split_ifs <;> simp
  | succ d ih =>
    have hself := hn c self_mem_below
    rw [truncCell] at hself hn
    obtain ⟨heq, -⟩ | ⟨-, -, hle⟩ | ⟨heq, hp, -⟩ := truncTree_cases (e := e) (p := m c) ha
    · rw [heq] at hn
      exact follow_congr (fun k hk => (hn k hk).trans (by simp)) his
    · omega
    · rw [heq] at hn hself
      dsimp only at hn hself
      rw [update_self] at hself
      obtain ⟨hchild, -⟩ := h hp
      cases is with
      | nil => simp at hlen
      | cons i is =>
        obtain ⟨hi, his⟩ := prefix_cons.1 his
        rw [follow, follow, hself]
        split_ifs
        · rfl
        rw [value_cons, ← Nat.add_assoc] at hk
        refine ih (hchild i hi).1 (fun k hki => ?_) his (by simpa using hlen) hk
        have hkc : k ≠ c := by
          rintro rfl
          exact (hchild i hi).2 hki
        rw [hn k (child_subset_below hp hi hki), update_of_ne hkc]
        exact (h.run ha hp).inside i (List.mem_range.2 hi) k hki

end Freed

end MyOS.Fs.Ext2
