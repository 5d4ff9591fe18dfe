import MyOS.Memory.VmaList
import Mathlib.Order.Bounds.Basic

/-! `find_free_area` returns the highest free place, and misses one in the lowest page. -/

namespace MyOS.Memory

def Vma.Clear (v : Vma) (len c : ℕ) : Prop := v.stop + pageSize ≤ c ∨ c + len + pageSize ≤ v.start

def Vacant (vs : List Vma) (len c : ℕ) : Prop := c ≤ mmapTop - len ∧ ∀ v ∈ vs, v.Clear len c

/-- The passes of `find_free_area` from a candidate on, and what it returns in the end. -/
inductive FreeAreaSearch (len : ℕ) (vs : List Vma) : ℕ → ℕ → Prop
  | fail {c} (h : freeAreaPass len vs c false = none) : FreeAreaSearch len vs c 0
  | again {c c' r} (h : freeAreaPass len vs c false = some (c', true)) (hr : FreeAreaSearch len vs c' r) :
    FreeAreaSearch len vs c r
  | stay {c c'} (h : freeAreaPass len vs c false = some (c', false)) :
    FreeAreaSearch len vs c (if userSpaceStart ≤ c' then c' else 0)

structure BestArea (vs : List Vma) (len r : ℕ) : Prop where
  search : FreeAreaSearch len vs ((mmapTop + 2 ^ 64 - len) % 2 ^ 64) r
  found : r ≠ 0 → userSpaceStart ≤ r ∧ IsGreatest {c | Vacant vs len c} r
  none : r = 0 → ∀ c, Vacant vs len c → c < userSpaceStart

def LowestNotAlone (vs : List Vma) (len : ℕ) : Prop :=
  ∀ c, userSpaceStart ≤ c → c < userSpaceStart + pageSize → Vacant vs len c →
    ∃ c', userSpaceStart + pageSize ≤ c' ∧ Vacant vs len c'

variable {len c c' r : ℕ} {v : Vma} {vs : List Vma} {moved moved' : Bool}

section Pass

lemma clear_iff (hlen : len ≤ 2 ^ 40) (hc : c ≤ mmapTop - len) (hv : v.stop + pageSize < 2 ^ 64) :
    v.Clear len c ↔ ¬ (c < (v.stop + pageSize) % 2 ^ 64 ∧ v.start < (c + len + pageSize) % 2 ^ 64) := by
  simp only [Vma.Clear, mmapTop, pageSize] at *
  omega

def Skipped (vs : List Vma) (len lo hi : ℕ) : Prop := ∀ a, lo < a → a ≤ hi → ¬ ∀ v ∈ vs, v.Clear len a

lemma Skipped.cons {lo hi : ℕ} (h : Skipped vs len lo hi) : Skipped (v :: vs) len lo hi :=
  fun a hlo hhi hall => h a hlo hhi fun w hw => hall w (List.mem_cons_of_mem v hw)

lemma Skipped.append {lo mid hi : ℕ} (h : Skipped vs len lo mid) (h' : Skipped vs len mid hi) :
    Skipped vs len lo hi := by
  intro a hlo hhi
  by_cases ha : a ≤ mid
  · exact h a hlo ha
  · exact h' a (not_le.1 ha) hhi

lemma skipped_of_low (hlen : len ≤ 2 ^ 40) (hv : ¬ v.Clear len c)
    (hlow : v.start < (len + 2 * pageSize + userSpaceStart) % 2 ^ 64) :
    Skipped (v :: vs) len (userSpaceStart + pageSize - 1) c := by
  intro a ha hac hall
  have hclear := hall v List.mem_cons_self
  simp only [Vma.Clear, pageSize, userSpaceStart] at *
  omega

lemma skipped_of_move (vs : List Vma) (hlen : len ≤ 2 ^ 40) (hc : c ≤ mmapTop - len) (hv : ¬ v.Clear len c)
    (hhigh : ¬ v.start < (len + 2 * pageSize + userSpaceStart) % 2 ^ 64) {c₁ : ℕ}
    (hc₁ : (v.start + 2 * 2 ^ 64 - len - pageSize) % 2 ^ 64 = c₁) :
    c₁ ≤ c ∧ userSpaceStart + pageSize ≤ c₁ ∧ Skipped (v :: vs) len c₁ c := by
  have heq : c₁ + len + pageSize = v.start := by
    simp only [Vma.Clear, mmapTop, pageSize, userSpaceStart] at *
    omega
  refine ⟨?_, ?_, fun a ha hac hall => ?_⟩
  · simp only [Vma.Clear] at hv
    omega
  · simp only [pageSize, userSpaceStart] at *
    omega
  · have hclear := hall v List.mem_cons_self
    simp only [Vma.Clear] at hv hclear
    omega

lemma freeAreaPass_none (hvs : ∀ v ∈ vs, v.stop + pageSize < 2 ^ 64) (hlen : len ≤ 2 ^ 40)
    (hc : c ≤ mmapTop - len) (h : freeAreaPass len vs c moved = none) :
    Skipped vs len (userSpaceStart + pageSize - 1) c := by
  induction vs generalizing c moved with
  | nil => cases h
  | cons v vs ih =>
    have hrest := fun w hw => hvs w (List.mem_cons_of_mem v hw)
    have hclear := clear_iff hlen hc (hvs v List.mem_cons_self)
    rw [freeAreaPass] at h
    split at h
    · rename_i hhit
      have hv : ¬ v.Clear len c := fun hv => hclear.1 hv hhit
      split at h
      · rename_i hlow
        exact skipped_of_low hlen hv hlow
      · rename_i hhigh
        obtain ⟨hle, -, hskip⟩ := skipped_of_move vs hlen hc hv hhigh rfl
        exact (ih hrest (hle.trans hc) h).cons.append hskip
    · exact (ih hrest hc h).cons

lemma freeAreaPass_some (hvs : ∀ v ∈ vs, v.stop + pageSize < 2 ^ 64) (hlen : len ≤ 2 ^ 40)
    (hc : c ≤ mmapTop - len) (hlow : userSpaceStart + pageSize ≤ c)
    (h : freeAreaPass len vs c moved = some (c', moved')) :
    c' ≤ c ∧ userSpaceStart + pageSize ≤ c' ∧ Skipped vs len c' c ∧
      (moved' = false → moved = false ∧ c' = c ∧ ∀ v ∈ vs, v.Clear len c) := by
  induction vs generalizing c moved with
  | nil =>
    cases h
    exact ⟨le_rfl, hlow, fun a ha hac => absurd hac (not_le.2 ha), fun hm => ⟨hm, rfl, by simp⟩⟩
  | cons v vs ih =>
    have hrest := fun w hw => hvs w (List.mem_cons_of_mem v hw)
    have hclear := clear_iff hlen hc (hvs v List.mem_cons_self)
    rw [freeAreaPass] at h
    split at h
    · rename_i hhit
      have hv : ¬ v.Clear len c := fun hv => hclear.1 hv hhit
      split at h
      · cases h
      · rename_i hhigh
        obtain ⟨hle, hlow', hskip⟩ := skipped_of_move vs hlen hc hv hhigh rfl
        obtain ⟨hle', hlow'', hskip', hstay⟩ := ih hrest (hle.trans hc) hlow' h
        exact ⟨hle'.trans hle, hlow'', hskip'.cons.append hskip, fun hm => absurd (hstay hm).1 (by decide)⟩
    · rename_i hmiss
      obtain ⟨hle, hlow', hskip, hstay⟩ := ih hrest hc hlow h
      refine ⟨hle, hlow', hskip.cons, fun hm => ?_⟩
      obtain ⟨hm', heq, hall⟩ := hstay hm
      exact ⟨hm', heq, List.forall_mem_cons.2 ⟨hclear.2 hmiss, hall⟩⟩

end Pass

section Search

lemma freeAreaLoop_search (hlen : len < 2 ^ 64) (hvs : ∀ v ∈ vs, v.start < 2 ^ 64) (n : ℕ)
    (hn : (startsBelow vs (reach len c)).card < n) : FreeAreaSearch len vs c (freeAreaLoop len vs n c) := by
  induction n generalizing c with
  | zero => omega
  | succ n ih =>
    rw [freeAreaLoop]
    rcases hp : freeAreaPass len vs c false with _ | ⟨c', _ | _⟩
    · exact .fail hp
    · exact .stay hp
    · rcases freeAreaPass_moves hlen hvs hp with ⟨-, hm⟩ | hless
      · cases hm
      · exact .again hp (ih ((startsBelow_card_lt hless).trans_le (Nat.le_of_lt_succ hn)))

lemma FreeAreaSearch.spec (hvs : ∀ v ∈ vs, v.stop + pageSize < 2 ^ 64) (hlen : len ≤ 2 ^ 40)
    (h : FreeAreaSearch len vs c r) (hc : c ≤ mmapTop - len) (hlow : userSpaceStart + pageSize ≤ c) :
    (r = 0 ∧ Skipped vs len (userSpaceStart + pageSize - 1) c) ∨
      (userSpaceStart + pageSize ≤ r ∧ r ≤ c ∧ (∀ v ∈ vs, v.Clear len r) ∧ Skipped vs len r c) := by
  induction h with
  | fail h => exact .inl ⟨rfl, freeAreaPass_none hvs hlen hc h⟩
  | again h _ ih =>
    obtain ⟨hle, hlow', hskip, -⟩ := freeAreaPass_some hvs hlen hc hlow h
    rcases ih (hle.trans hc) hlow' with ⟨hr, hrest⟩ | ⟨hr, hrc, hall, hrest⟩
    · exact .inl ⟨hr, hrest.append hskip⟩
    · exact .inr ⟨hr, hrc.trans hle, hall, hrest.append hskip⟩
  | stay h =>
    obtain ⟨-, -, hskip, hstay⟩ := freeAreaPass_some hvs hlen hc hlow h
    obtain ⟨-, rfl, hall⟩ := hstay rfl
    rw [if_pos ((Nat.le_add_right _ _).trans hlow)]
    exact .inr ⟨hlow, le_rfl, hall, hskip⟩

end Search

theorem bestArea_iff_lowestNotAlone (vs : List Vma) (hvs : ∀ v ∈ vs, v.start ≤ v.stop ∧ v.stop + pageSize < 2 ^ 64)
    (len : ℕ) (hlen : len ≤ 2 ^ 40) : BestArea vs len (findFreeArea vs len) ↔ LowestNotAlone vs len := by
  have hstop := fun v hv => (hvs v hv).2
  have hstart : ∀ v ∈ vs, v.start < 2 ^ 64 := fun v hv => by
    have := hvs v hv
    omega
  have hfirst : (mmapTop + 2 ^ 64 - len) % 2 ^ 64 = mmapTop - len := by
    simp only [mmapTop]
    omega
  have hhigh : userSpaceStart + pageSize ≤ mmapTop - len := by
    simp only [mmapTop, userSpaceStart, pageSize]
    omega
  have hsearch : FreeAreaSearch len vs ((mmapTop + 2 ^ 64 - len) % 2 ^ 64) (findFreeArea vs len) :=
    freeAreaLoop_search (by omega) hstart _ (Nat.lt_succ_of_le (startsBelow_card _))
  have hspec := hsearch
  rw [hfirst] at hspec
  have hskip : ∀ {lo c}, Skipped vs len lo (mmapTop - len) → Vacant vs len c → c ≤ lo := fun h hc =>
    not_lt.1 fun hlt => h _ hlt hc.1 hc.2
  have hpos : 0 < userSpaceStart ∧ 0 < pageSize := by decide
  rcases hspec.spec hstop hlen le_rfl hhigh with ⟨hzero, hnone⟩ | ⟨hlow, hle, hall, habove⟩
  · constructor
    · intro h c hc _ hfree
      exact absurd (h.none hzero c hfree) (not_lt.2 hc)
    · refine fun h => ⟨hsearch, fun hne => absurd hzero hne, fun _ c hc => ?_⟩
      have hpage := hskip hnone hc
      by_contra hcc
      obtain ⟨c', hc', hfree⟩ := h c (not_lt.1 hcc) (by omega) hc
      have := hskip hnone hfree
      omega
  · refine iff_of_true ⟨hsearch, fun _ => ⟨by omega, ⟨hle, hall⟩, fun c hc => hskip habove hc⟩, fun h => by omega⟩ ?_
    exact fun c _ _ _ => ⟨_, hlow, hle, hall⟩

section LowestPage

def almostAll : Vma := ⟨userSpaceStart + 2 * pageSize, mmapTop, 0, vmaAnon⟩

theorem bestArea_iff_lowestNotAlone_almostAll :
    BestArea [almostAll] pageSize (findFreeArea [almostAll] pageSize) ↔ LowestNotAlone [almostAll] pageSize :=
  bestArea_iff_lowestNotAlone [almostAll] (fun v hv => by rw [List.mem_singleton.1 hv]; decide) pageSize (by decide)

theorem not_bestArea_almostAll : ¬ ∀ vs len, VmaList vs → pageSize ∣ len → 0 < len → len ≤ 2 ^ 40 →
    BestArea vs len (findFreeArea vs len) := by
  intro h
  have hlist : VmaList [almostAll] := vmaList_cons.2
    ⟨⟨by decide, by decide, by decide, by decide, by decide⟩, by simp, vmaList_nil⟩
  have hbest := h [almostAll] pageSize hlist dvd_rfl (by decide) (by decide)
  have hfree : Vacant [almostAll] pageSize userSpaceStart :=
    ⟨by decide, fun v hv => .inr (by rw [List.mem_singleton.1 hv]; decide)⟩
  exact absurd (hbest.none (by decide) userSpaceStart hfree) (lt_irrefl _)

end LowestPage

end MyOS.Memory
