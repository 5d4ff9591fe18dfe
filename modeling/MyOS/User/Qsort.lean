import MyOS.Library.Bytes
import MyOS.Library.ShellSort

/-! `qsort` on an array in memory; an access outside the array fails. -/

namespace MyOS.User

open Library ShellSort Function

/-- The arguments of `qsort` but for the comparison; the array ends in memory, so that no address overflows. -/
structure QsortArray where
  base : ℕ
  n : ℕ
  size : ℕ

namespace QsortArray

abbrev Mem := ℕ → UInt8

variable (arr : QsortArray) (cmp : List UInt8 → List UInt8 → ℤ)

def stop : ℕ := arr.base + arr.n * arr.size

def loadByte (m : Mem) (x : ℕ) : Option UInt8 := if arr.base ≤ x ∧ x < arr.stop then some (m x) else none

def storeByte (m : Mem) (x : ℕ) (v : UInt8) : Option Mem :=
  if arr.base ≤ x ∧ x < arr.stop then some (update m x v) else none

def loadElement (m : Mem) (x : ℕ) : Option (List UInt8) :=
  if arr.base ≤ x ∧ x + arr.size ≤ arr.stop then some (Bytes.load m x arr.size) else none

def swapBytes (m : Mem) (a b : ℕ) : ℕ → Option Mem
  | 0 => some m
  | size + 1 => do
    let t ← arr.loadByte m a
    let u ← arr.loadByte m b
    let m ← arr.storeByte m a u
    let m ← arr.storeByte m b t
    swapBytes m (a + 1) (b + 1) size

def sinkLoop {gap : ℕ} (hg : 0 < gap) (m : Mem) (j : ℕ) : Option Mem :=
  if _h : gap ≤ j then do
    let x ← arr.loadElement m (arr.base + (j - gap) * arr.size)
    let y ← arr.loadElement m (arr.base + j * arr.size)
    if cmp x y > 0 then
      let m ← arr.swapBytes m (arr.base + (j - gap) * arr.size) (arr.base + j * arr.size) arr.size
      sinkLoop hg m (j - gap)
    else some m
  else some m
termination_by j

def passLoop {gap : ℕ} (hg : 0 < gap) (m : Mem) (i : ℕ) : Option Mem :=
  if i < arr.n then do
    let m ← arr.sinkLoop cmp hg m i
    passLoop hg m (i + 1)
  else some m
termination_by arr.n - i

def gapLoop (m : Mem) (gap : ℕ) : Option Mem :=
  if hg : 0 < gap then do
    let m ← arr.passLoop cmp hg m gap
    gapLoop m (gap / 2)
  else some m
termination_by gap

def qsort (m : Mem) : Option Mem := arr.gapLoop cmp m (arr.n / 2)

def element (m : Mem) (k : ℕ) : List UInt8 := Bytes.load m (arr.base + k * arr.size) arr.size

def elements (m : Mem) : List (List UInt8) := firsts arr.n (arr.element m)

def greater (x y : List UInt8) : Bool := 0 < cmp x y

variable {arr cmp} {m m' : Mem} {i j a b size gap : ℕ}

lemma swapBytes_eq (hab : a + size ≤ b) (ha : arr.base ≤ a) (hb : b + size ≤ arr.stop) :
    arr.swapBytes m a b size = some fun x =>
      if a ≤ x ∧ x < a + size then m (x + (b - a)) else if b ≤ x ∧ x < b + size then m (x - (b - a)) else m x := by
  induction size generalizing m a b with
  | zero =>
    rw [swapBytes]
    congr 1
    funext x
    rw [if_neg (by omega), if_neg (by omega)]
  | succ size ih =>
    have hra : arr.base ≤ a ∧ a < arr.stop := by omega
    have hrb : arr.base ≤ b ∧ b < arr.stop := by omega
    simp only [swapBytes, loadByte, storeByte, if_pos hra, if_pos hrb, Option.bind_eq_bind, Option.bind_some]
    rw [ih (by omega) (by omega) (by omega)]
    congr 1
    funext x
    have hd : b + 1 - (a + 1) = b - a := by omega
    rw [hd]
    rcases lt_trichotomy x a with hx | rfl | hx
    · grind [update_of_ne]
    · rw [if_neg (by omega), if_neg (by omega), if_pos (by omega), update_of_ne (by omega),
        update_self, show x + (b - x) = b by omega]
    · by_cases hxb : x = b
      · subst hxb
        rw [if_neg (by omega), if_neg (by omega), if_neg (by omega), if_pos (by omega), update_self,
          show x - (x - a) = a by omega]
      · have hne : ∀ y, y ≠ a → y ≠ b → update (update m a (m b)) b (m a) y = m y := by
          intro y h₁ h₂
          rw [update_of_ne h₂, update_of_ne h₁]
        split_ifs <;> first | omega | exact hne _ (by omega) (by omega)

lemma element_mem (hj : j < arr.n) : arr.base + j * arr.size + arr.size ≤ arr.stop := by
  have h : (j + 1) * arr.size ≤ arr.n * arr.size := Nat.mul_le_mul_right _ hj
  rw [Nat.succ_mul] at h
  rw [stop]
  omega

lemma element_apart (hij : i ≠ j) {x : ℕ} (hi : arr.base + i * arr.size ≤ x) (hi' : x < arr.base + i * arr.size + arr.size) :
    ¬ (arr.base + j * arr.size ≤ x ∧ x < arr.base + j * arr.size + arr.size) := by
  rcases Nat.lt_or_gt_of_ne hij with h | h
  · have hle : (i + 1) * arr.size ≤ j * arr.size := Nat.mul_le_mul_right _ h
    rw [Nat.succ_mul] at hle
    omega
  · have hle : (j + 1) * arr.size ≤ i * arr.size := Nat.mul_le_mul_right _ h
    rw [Nat.succ_mul] at hle
    omega

lemma swapBytes_element (hij : i < j) (hj : j < arr.n) : ∃ m',
    arr.swapBytes m (arr.base + i * arr.size) (arr.base + j * arr.size) arr.size = some m' ∧
      arr.element m' = swapAt (arr.element m) i j ∧ ∀ x, x < arr.base ∨ arr.stop ≤ x → m' x = m x := by
  have hle : (i + 1) * arr.size ≤ j * arr.size := Nat.mul_le_mul_right _ hij
  rw [Nat.succ_mul] at hle
  have hmem := element_mem hj
  refine ⟨_, swapBytes_eq (by omega) (by omega) hmem, ?_, ?_⟩
  · funext k
    rw [swapAt, Function.comp_apply]
    by_cases hki : k = i
    · subst hki
      rw [Equiv.swap_apply_left]
      apply Bytes.load_shift
      intro x hx
      rw [if_pos (by omega)]
      congr 1
      omega
    · by_cases hkj : k = j
      · subst hkj
        rw [Equiv.swap_apply_right]
        apply Bytes.load_shift
        intro x hx
        rw [if_neg (by omega), if_pos (by omega)]
        congr 1
        omega
      · rw [Equiv.swap_apply_of_ne_of_ne hki hkj]
        apply Bytes.load_congr
        intro x h₁ h₂
        rw [if_neg (element_apart hki h₁ h₂), if_neg (element_apart hkj h₁ h₂)]
  · intro x hx
    rw [if_neg (by omega), if_neg (by omega)]

lemma loadElement_eq (hi : i < arr.n) :
    arr.loadElement m (arr.base + i * arr.size) = some (arr.element m i) :=
  if_pos ⟨Nat.le_add_right _ _, element_mem hi⟩

/-- What a loop does to the memory: it ends without an access outside the array, changes nothing there, and does to the
elements what `f` says. -/
def Does (arr : QsortArray) (m : Mem) (f : ℕ → List UInt8) (r : Option Mem) : Prop :=
  ∃ m', r = some m' ∧ arr.element m' = f ∧ ∀ x, x < arr.base ∨ arr.stop ≤ x → m' x = m x

lemma Does.bind {f g : ℕ → List UInt8} {r : Option Mem} {k : Mem → Option Mem} (h : arr.Does m f r)
    (hk : ∀ m', arr.element m' = f → arr.Does m' g (k m')) : arr.Does m g (r >>= k) := by
  obtain ⟨m', rfl, hf, ho⟩ := h
  obtain ⟨m'', hr, hg, ho'⟩ := hk m' hf
  exact ⟨m'', hr, hg, fun x hx => (ho' x hx).trans (ho x hx)⟩

lemma Does.refl : arr.Does m (arr.element m) (some m) := ⟨m, rfl, rfl, fun _ _ => rfl⟩

lemma sinkLoop_does (hg : 0 < gap) (hj : j < arr.n) :
    arr.Does m (sink (greater cmp) hg (arr.element m) j) (arr.sinkLoop cmp hg m j) := by
  induction j using Nat.strong_induction_on generalizing m with
  | h j ih =>
    rw [sinkLoop, sink]
    by_cases h : gap ≤ j
    · simp only [dif_pos h, loadElement_eq hj, loadElement_eq (show j - gap < arr.n by omega), Option.bind_eq_bind,
        Option.bind_some]
      by_cases hc : cmp (arr.element m (j - gap)) (arr.element m j) > 0
      · rw [if_pos hc, if_pos ⟨h, decide_eq_true hc⟩]
        apply Does.bind (swapBytes_element (by omega) hj)
        intro m' hm
        rw [← hm]
        exact ih (j - gap) (by omega) (by omega)
      · rw [if_neg hc, if_neg fun h' => hc (of_decide_eq_true h'.2)]
        exact Does.refl
    · rw [dif_neg h, if_neg fun h' => h h'.1]
      exact Does.refl

lemma passLoop_does (hg : 0 < gap) (m : Mem) (i : ℕ) :
    arr.Does m (ShellSort.pass (greater cmp) hg arr.n (arr.element m) i) (arr.passLoop cmp hg m i) := by
  induction hk : arr.n - i generalizing m i with
  | zero =>
    have hi : ¬ i < arr.n := by omega
    rw [passLoop, ShellSort.pass, if_neg hi, if_neg hi]
    exact Does.refl
  | succ k ih =>
    have hi : i < arr.n := by omega
    rw [passLoop, ShellSort.pass, if_pos hi, if_pos hi]
    apply Does.bind (sinkLoop_does hg hi)
    intro m' hm
    rw [← hm]
    exact ih m' (i + 1) (by omega)

lemma gapLoop_does (m : Mem) (gap : ℕ) :
    arr.Does m (ShellSort.sort (greater cmp) arr.n (arr.element m) gap) (arr.gapLoop cmp m gap) := by
  induction gap using Nat.strong_induction_on generalizing m with
  | h gap ih =>
    rw [gapLoop, ShellSort.sort]
    by_cases hg : 0 < gap
    · rw [dif_pos hg, dif_pos hg]
      apply Does.bind (passLoop_does hg m gap)
      intro m' hm
      rw [← hm]
      exact ih (gap / 2) (by omega) m'
    · rw [dif_neg hg, dif_neg hg]
      exact Does.refl

structure TotalPreorder (cmp : List UInt8 → List UInt8 → ℤ) (size : ℕ) : Prop where
  total : ∀ x y, x.length = size → y.length = size → cmp x y ≤ 0 ∨ cmp y x ≤ 0
  trans : ∀ x y z, x.length = size → y.length = size → z.length = size → cmp x y ≤ 0 → cmp y z ≤ 0 → cmp x z ≤ 0

lemma TotalPreorder.greater (h : TotalPreorder cmp size) :
    ShellSort.TotalPreorder (greater cmp) fun x => x.length = size := by
  have hle : ∀ x y, QsortArray.greater cmp x y = false ↔ cmp x y ≤ 0 := by
    intro x y
    rw [QsortArray.greater, decide_eq_false_iff_not, not_lt]
  constructor
  · intro x y hx hy hxy
    rw [hle]
    apply (h.total x y hx hy).resolve_left
    rw [← hle, hxy]
    exact Bool.noConfusion
  · intro x y z hx hy hz hxy hyz
    rw [hle] at *
    exact h.trans x y z hx hy hz hxy hyz

theorem qsort_sorts (arr : QsortArray) (m : Mem) (h : TotalPreorder cmp arr.size) : ∃ m', arr.qsort cmp m = some m' ∧
    (∀ x, x < arr.base ∨ arr.base + arr.n * arr.size ≤ x → m' x = m x) ∧
    (arr.elements m').Perm (arr.elements m) ∧ (arr.elements m').Pairwise fun x y => cmp x y ≤ 0 := by
  obtain ⟨m', hr, hf, ho⟩ := @gapLoop_does arr cmp m (arr.n / 2)
  refine ⟨m', hr, ho, ?_, ?_⟩
  · rw [elements, elements, hf]
    exact firsts_sort _ _
  · have hsize : ∀ k, (arr.element m k).length = arr.size := fun k => Bytes.length_load
    have hgap : 0 < arr.n / 2 ∨ arr.n ≤ 1 := by omega
    have hs := h.greater.firsts_sort_sorted hsize hgap
    rw [elements, hf]
    apply hs.imp
    intro x y hxy
    rwa [QsortArray.greater, decide_eq_false_iff_not, not_lt] at hxy

def threeBytes : Mem := Bytes.store (fun _ => 0) 8 [3, 1, 2, 9]

def byteOrder (x y : List UInt8) : ℤ := (x.headD 0).toNat - (y.headD 0).toNat

lemma byteOrder_preorder (size : ℕ) : TotalPreorder byteOrder size := by
  constructor
  · intro x y _ _
    simp only [byteOrder]
    omega
  · intro x y z _ _ _ h₁ h₂
    simp only [byteOrder] at *
    omega

theorem qsort_sorts_three : ∃ m', qsort ⟨8, 3, 1⟩ byteOrder threeBytes = some m' ∧
    (∀ x, x < 8 ∨ 11 ≤ x → m' x = threeBytes x) ∧
    (elements ⟨8, 3, 1⟩ m').Perm (elements ⟨8, 3, 1⟩ threeBytes) ∧
    (elements ⟨8, 3, 1⟩ m').Pairwise fun x y => byteOrder x y ≤ 0 :=
  qsort_sorts ⟨8, 3, 1⟩ threeBytes (byteOrder_preorder 1)

end QsortArray

end MyOS.User
