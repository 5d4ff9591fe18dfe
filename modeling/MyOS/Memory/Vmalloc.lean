import MyOS.Library.System
import MyOS.Memory.Page

/-! Kernel memory that is mapped page by page: the list of areas, `vmalloc`, `ioremap` and their
reverses. -/

namespace MyOS.Memory

open Library Function

def vmallocEnd : ℕ := 0xFFFFE00000000000

structure VmArea where
  start : ℕ
  size : ℕ
  io : Bool
  deriving DecidableEq, Repr

/-- The areas and the kernel's page tables above `VMALLOC_START`: the page directories by the number of their GiB, the page
tables by that of their 2 MiB, and the frames that are mapped by page number. All tables above them are made at boot.
`taken` has the frames that `vmalloc` holds. -/
structure VmState where
  areas : List VmArea := []
  pd : ℕ → Option ℕ := fun _ => none
  pt : ℕ → Option ℕ := fun _ => none
  pte : ℕ → Option ℕ := fun _ => none
  taken : Finset ℕ := ∅

inductive VmPanic
  | alreadyMapped
  | noTable
  | notAnArea
  | wrongKind
  deriving DecidableEq, Repr

/-- What the buddy allocator gives in one round: the page, and the tables in case they are missing. -/
structure Grant where
  page : Option ℕ := none
  pd : Option ℕ := none
  pt : Option ℕ := none

/-- The loop of `alloc_area`: the cursor, and the areas in front of the new one and behind it. -/
def findGap (need : ℕ) : List VmArea → ℕ → ℕ × List VmArea × List VmArea
  | [], cursor => (cursor, [], [])
  | it :: rest, cursor =>
    let itBegin := (it.start + 2 ^ 64 - pageSize) % 2 ^ 64
    if need ≤ (itBegin + 2 ^ 64 - cursor) % 2 ^ 64 then (cursor, [], it :: rest)
    else
      let (found, front, back) := findGap need rest ((it.start + it.size + pageSize) % 2 ^ 64)
      (found, it :: front, back)

def areaNeed (size : ℕ) : ℕ := (alignUp size pageSize + 2 * pageSize) % 2 ^ 64

def allocArea (areas : List VmArea) (size : ℕ) (io : Bool) : Option (VmArea × List VmArea) :=
  let need := areaNeed size
  let (cursor, front, back) := findGap need areas vmallocStart
  if vmallocEnd < (cursor + need) % 2 ^ 64 then none
  else
    let a : VmArea :=
      { start := (cursor + pageSize) % 2 ^ 64, size := alignUp size pageSize, io := io }
    some (a, front ++ a :: back)

def pageAt (start k : ℕ) : ℕ := (start + k * pageSize) % 2 ^ 64 / pageSize

def Grant.frames (g : Grant) : List ℕ := g.page.toList ++ g.pd.toList ++ g.pt.toList

namespace VmState

def nextLevel (table : ℕ → Option ℕ) (idx : ℕ) (allocTable : Option ℕ) : ℕ → Option ℕ :=
  if (table idx).isSome then table else update table idx allocTable

/-- `vmm_get_pte` of the page `q`, which creates the tables that are missing. The result says if there is an entry now. -/
def getPte (s : VmState) (q : ℕ) (grant : Grant) : Bool × VmState :=
  let s := { s with pd := nextLevel s.pd (q / 512 ^ 2) grant.pd }
  if (s.pd (q / 512 ^ 2)).isSome then
    let s := { s with pt := nextLevel s.pt (q / 512) grant.pt }
    ((s.pt (q / 512)).isSome, s)
  else (false, s)

/-- The loop of `vmalloc` over `n` pages from the `k`th on; the result has the number of pages
that were mapped. -/
def mapPages (start : ℕ) (grant : ℕ → Grant) : ℕ → ℕ → VmState → Except VmPanic (VmState × ℕ)
  | 0, k, s => .ok (s, k)
  | n + 1, k, s =>
    match (grant k).page with
    | none => .ok (s, k)
    | some frame =>
      match s.getPte (pageAt start k) (grant k) with
      | (false, s) => .ok (s, k)
      | (true, s) =>
        if (s.pte (pageAt start k)).isSome then .error .alreadyMapped
        else mapPages start grant n (k + 1)
          { s with pte := update s.pte (pageAt start k) (some frame)
                   taken := insert frame s.taken }

def unmapFrom (start : ℕ) (io : Bool) : ℕ → ℕ → VmState → VmState
  | 0, _, s => s
  | n + 1, k, s =>
    match s.pte (pageAt start k) with
    | none => unmapFrom start io n (k + 1) s
    | some frame => unmapFrom start io n (k + 1)
        { s with pte := update s.pte (pageAt start k) none
                 taken := if frame ≠ 0 ∧ io = false then s.taken.erase frame else s.taken }

def unmapArea (s : VmState) (a : VmArea) : VmState :=
  s.unmapFrom a.start a.io (a.size / pageSize) 0

/-- The result is the address. `node` says that there is memory for the `struct vm_area`. -/
def vmalloc (s : VmState) (size : ℕ) (node : Bool) (grant : ℕ → Grant) :
    Except VmPanic (ℕ × VmState) :=
  if size = 0 ∨ node = false then .ok (0, s)
  else match allocArea s.areas size false with
    | none => .ok (0, s)
    | some (a, areas) =>
      match mapPages a.start grant (a.size / pageSize) 0 { s with areas := areas } with
      | .error e => .error e
      | .ok (t, k) =>
        if k = a.size / pageSize then .ok (a.start, t)
        else
          let t := t.unmapArea { a with size := k * pageSize }
          .ok (0, { t with areas := t.areas.erase a })

def release (s : VmState) (addr : ℕ) (io : Bool) : Except VmPanic VmState :=
  if addr = 0 then .ok s
  else match s.areas.find? fun a => a.start = alignDown addr pageSize with
    | none => .error .notAnArea
    | some a =>
      if a.io ≠ io then .error .wrongKind
      else .ok (({ s with areas := s.areas.erase a } : VmState).unmapArea a)

def mapIo (start base : ℕ) (grant : ℕ → Grant) : ℕ → ℕ → VmState → Except VmPanic VmState
  | 0, _, s => .ok s
  | n + 1, k, s =>
    match s.getPte (pageAt start k) (grant k) with
    | (false, _) => .error .noTable
    | (true, s) =>
      if (s.pte (pageAt start k)).isSome then .error .alreadyMapped
      else mapIo start base grant n (k + 1) { s with
        pte := update s.pte (pageAt start k) (some (pageAt base k % 2 ^ 40)) }

def ioremap (s : VmState) (phys size : ℕ) (node : Bool) (grant : ℕ → Grant) :
    Except VmPanic (ℕ × VmState) :=
  let offset := phys % pageSize
  let len := alignUp ((size + offset) % 2 ^ 64) pageSize
  if node = false then .ok (0, s)
  else match allocArea s.areas len true with
    | none => .ok (0, s)
    | some (a, areas) =>
      match mapIo a.start (phys - offset) grant (len / pageSize) 0 { s with areas := areas } with
      | .error e => .error e
      | .ok t => .ok ((a.start + offset) % 2 ^ 64, t)

def Uses (s : VmState) (frame : ℕ) : Prop :=
  frame ∈ s.taken ∨ ∃ i, s.pd i = some frame ∨ s.pt i = some frame

structure Fresh (s : VmState) (grant : ℕ → Grant) : Prop where
  unused : ∀ k, ∀ f ∈ (grant k).frames, ¬ s.Uses f ∧ f ≠ 0
  once : ∀ k l f, f ∈ (grant k).frames → f ∈ (grant l).frames → k = l
  nodup : ∀ k, (grant k).frames.Nodup

end VmState

inductive VmCall
  | vmalloc (size : ℕ) (node : Bool) (grant : ℕ → Grant)
  | vfree (addr : ℕ)
  | ioremap (phys size : ℕ) (node : Bool) (grant : ℕ → Grant)
  | iounmap (addr : ℕ)

inductive VmStep : VmState → VmCall → VmState → Prop
  | vmalloc {s t : VmState} {size r : ℕ} {node : Bool} {grant : ℕ → Grant}
      (hs : size < 2 ^ 64) (hg : s.Fresh grant) (h : s.vmalloc size node grant = .ok (r, t)) :
      VmStep s (.vmalloc size node grant) t
  | vfree {s t : VmState} {addr : ℕ} (ha : addr < 2 ^ 64) (h : s.release addr false = .ok t) :
      VmStep s (.vfree addr) t
  | ioremap {s t : VmState} {phys size r : ℕ} {node : Bool} {grant : ℕ → Grant}
      (hp : phys < 2 ^ 64) (hs : size < 2 ^ 64) (hg : s.Fresh grant)
      (h : s.ioremap phys size node grant = .ok (r, t)) : VmStep s (.ioremap phys size node grant) t
  | iounmap {s t : VmState} {addr : ℕ} (ha : addr < 2 ^ 64) (h : s.release addr true = .ok t) :
      VmStep s (.iounmap addr) t

def vmallocSystem : System VmState VmCall where
  init s := s = {}
  step := VmStep

end MyOS.Memory

/-! What the search for a gap, the mapping loop and the unmapping loop of `vmalloc` do. -/

namespace MyOS.Memory

open Function

def VmArea.Before (a b : VmArea) : Prop := a.start + a.size + 2 * pageSize ≤ b.start

structure VmArea.InWindow (a : VmArea) : Prop where
  first : vmallocStart + pageSize ≤ a.start
  last : a.start + a.size + pageSize ≤ vmallocEnd
  start : pageSize ∣ a.start
  size : pageSize ∣ a.size

def VmArea.Covers (a : VmArea) (q : ℕ) : Prop :=
  a.start / pageSize ≤ q ∧ q < (a.start + a.size) / pageSize

structure Spaced (areas : List VmArea) : Prop where
  before : areas.Pairwise VmArea.Before
  window : ∀ a ∈ areas, a.InWindow

def cursorAfter (c : ℕ) : List VmArea → ℕ
  | [] => c
  | a :: rest => cursorAfter (a.start + a.size + pageSize) rest

def EndFits (areas : List VmArea) (size : ℕ) : Prop :=
  cursorAfter vmallocStart areas + (alignUp size pageSize + 2 * pageSize) < 2 ^ 64

structure AreaFits (areas : List VmArea) (size : ℕ) : Prop where
  rounded : size + pageSize - 1 < 2 ^ 64
  last : EndFits areas size

section Areas

variable {areas front back : List VmArea} {a b : VmArea} {c d need size q : ℕ}

lemma VmArea.InWindow.covers (ha : a.InWindow) :
    a.Covers q ↔ a.start ≤ q * pageSize ∧ q * pageSize < a.start + a.size := by
  obtain ⟨⟨k, hk⟩, n, hn⟩ := And.intro ha.start ha.size
  simp only [VmArea.Covers, hk, hn, pageSize]
  omega

lemma VmArea.InWindow.covers_iff (ha : a.InWindow) :
    a.Covers q ↔ a.start / pageSize ≤ q ∧ q < a.start / pageSize + a.size / pageSize := by
  rw [VmArea.Covers, Nat.add_div_of_dvd_right ha.start]

lemma VmArea.InWindow.end_le (ha : a.InWindow) :
    a.start + (0 + a.size / pageSize) * pageSize ≤ 2 ^ 64 := by
  rw [Nat.zero_add, Nat.div_mul_cancel ha.size]
  have := ha.last
  simp only [vmallocEnd, pageSize] at *
  omega

lemma Spaced.nodup (hs : Spaced areas) : areas.Nodup := by
  refine hs.before.imp fun {x y} hxy hEq => ?_
  subst hEq
  simp only [VmArea.Before, pageSize] at hxy
  omega

lemma Spaced.apart (hs : Spaced areas) (ha : a ∈ areas) (hb : b ∈ areas) (hne : a ≠ b) :
    a.Before b ∨ b.Before a := by
  have : Std.Symm fun x y : VmArea => x.Before y ∨ y.Before x := ⟨fun _ _ => Or.symm⟩
  have h : areas.Pairwise fun x y => x.Before y ∨ y.Before x := hs.before.imp fun h => .inl h
  exact h.forall ha hb hne

lemma Spaced.not_covers (hs : Spaced areas) (ha : a ∈ areas) (hb : b ∈ areas) (hne : a ≠ b)
    (hq : a.start ≤ q * pageSize + pageSize) (hq' : q * pageSize ≤ a.start + a.size) :
    ¬ b.Covers q := by
  rw [(hs.window b hb).covers]
  rintro ⟨h₁, h₂⟩
  obtain ⟨⟨k, hk⟩, n, hn⟩ := And.intro (hs.window a ha).start (hs.window a ha).size
  obtain ⟨⟨l, hl⟩, m, hm⟩ := And.intro (hs.window b hb).start (hs.window b hb).size
  rcases hs.apart ha hb hne with h | h <;>
  · simp only [VmArea.Before, hk, hn, hl, hm, pageSize] at *
    omega

lemma Spaced.other_covers (hs : Spaced areas) (ha : a ∈ areas) (hb : b ∈ areas) (hne : a ≠ b)
    (hq : a.Covers q) : ¬ b.Covers q := by
  obtain ⟨h₁, h₂⟩ := (hs.window a ha).covers.1 hq
  exact hs.not_covers ha hb hne (by omega) (by omega)

lemma Spaced.sublist (hs : Spaced areas) (h : front.Sublist areas) : Spaced front where
  before := hs.before.sublist h
  window a ha := hs.window a (h.subset ha)

lemma Spaced.insert (hs : Spaced (front ++ back)) (ha : a.InWindow)
    (hfront : ∀ x ∈ front, x.Before a) (hback : ∀ x ∈ back, a.Before x) :
    Spaced (front ++ a :: back) where
  before := by
    obtain ⟨h₁, h₂, h₃⟩ := List.pairwise_append.1 hs.before
    refine List.pairwise_append.2 ⟨h₁, List.pairwise_cons.2 ⟨hback, h₂⟩, fun x hx y hy => ?_⟩
    rcases List.mem_cons.1 hy with rfl | hy
    · exact hfront x hx
    · exact h₃ x hx y hy
  window x hx := by
    rcases List.mem_append.1 hx with hx | hx
    · exact hs.window x (List.mem_append_left _ hx)
    rcases List.mem_cons.1 hx with rfl | hx
    · exact ha
    · exact hs.window x (List.mem_append_right _ hx)

lemma Spaced.le_cursorAfter (hs : Spaced areas) : vmallocStart ≤ cursorAfter vmallocStart areas := by
  suffices ∀ c, vmallocStart ≤ c → vmallocStart ≤ cursorAfter c areas from this _ le_rfl
  induction areas with
  | nil => exact fun c hc => hc
  | cons a rest ih =>
    intro c _
    have := (hs.window a List.mem_cons_self).first
    exact ih (hs.sublist (List.sublist_cons_self ..)) _ (by omega)

structure Gap (need : ℕ) (areas : List VmArea) (c : ℕ) (r : ℕ × List VmArea × List VmArea) :
    Prop where
  split : areas = r.2.1 ++ r.2.2
  aligned : pageSize ∣ r.1
  ge : c ≤ r.1
  le : r.1 ≤ vmallocEnd
  front : ∀ x ∈ r.2.1, x.start + x.size + pageSize ≤ r.1
  back : ∀ x ∈ r.2.2, r.1 + need + pageSize ≤ x.start
  last : r.2.2 = [] → r.1 = cursorAfter c areas

lemma findGap_gap (hs : Spaced areas) (hc : pageSize ∣ c) (hend : c ≤ vmallocEnd)
    (hle : ∀ a ∈ areas, c + pageSize ≤ a.start) : Gap need areas c (findGap need areas c) := by
  induction areas generalizing c with
  | nil => exact ⟨rfl, hc, le_rfl, hend, by simp [findGap], by simp [findGap], fun _ => rfl⟩
  | cons a rest ih =>
    obtain ⟨hfirst, hbefore⟩ := List.pairwise_cons.1 hs.before
    have ha := hs.window a List.mem_cons_self
    have hca := hle a List.mem_cons_self
    have hbegin : (a.start + 2 ^ 64 - pageSize) % 2 ^ 64 = a.start - pageSize := by
      have := ha.last
      simp only [pageSize, vmallocEnd] at *
      omega
    have hgap : (a.start - pageSize + 2 ^ 64 - c) % 2 ^ 64 = a.start - pageSize - c := by
      have := ha.last
      simp only [pageSize, vmallocEnd] at *
      omega
    have hnext : (a.start + a.size + pageSize) % 2 ^ 64 = a.start + a.size + pageSize := by
      have := ha.last
      simp only [pageSize, vmallocEnd] at *
      omega
    simp only [findGap, hbegin, hgap, hnext]
    split
    · next hneed =>
      refine ⟨rfl, hc, le_rfl, hend, by simp, fun x hx => ?_, by simp⟩
      have hax : a.start ≤ x.start := by
        rcases List.mem_cons.1 hx with rfl | hx
        · exact le_rfl
        · have := hfirst x hx
          simp only [VmArea.Before] at this
          omega
      simp only
      omega
    · have hnextd : pageSize ∣ a.start + a.size + pageSize :=
        dvd_add (dvd_add ha.start ha.size) dvd_rfl
      have h := ih (c := a.start + a.size + pageSize)
        ⟨hbefore, fun x hx => hs.window x (List.mem_cons_of_mem _ hx)⟩ hnextd ha.last
        (fun x hx => by
          have := hfirst x hx
          simp only [VmArea.Before] at this
          omega)
      refine ⟨by simpa using h.split, h.aligned, ?_, h.le, fun x hx => ?_, h.back, h.last⟩
      · have := h.ge
        simp only
        omega
      · rcases List.mem_cons.1 hx with rfl | hx
        · exact h.ge
        · exact h.front x hx

lemma AreaFits.le_alignUp (h : AreaFits areas size) : size ≤ alignUp size pageSize :=
  (alignUp_spec (k := 12) (by decide) h.rounded).2

lemma allocArea_some (io : Bool) (hs : Spaced areas) (hlast : EndFits areas size) :
    allocArea areas size io = none ∨ ∃ a front back, areas = front ++ back ∧
      allocArea areas size io = some (a, front ++ a :: back) ∧ Spaced (front ++ a :: back) ∧
      a.size = alignUp size pageSize ∧ a.io = io := by
  have hup := dvd_alignUp size
  rw [EndFits] at hlast
  have hneed : areaNeed size = alignUp size pageSize + 2 * pageSize := by
    rw [areaNeed, Nat.mod_eq_of_lt (by omega)]
  have hgap : Gap (areaNeed size) areas vmallocStart (findGap (areaNeed size) areas vmallocStart) :=
    findGap_gap hs (by decide) (by decide) fun a ha => (hs.window a ha).first
  rcases hfind : findGap (areaNeed size) areas vmallocStart with ⟨d, front, back⟩
  rw [hfind] at hgap
  have hfits : d + areaNeed size < 2 ^ 64 := by
    cases back with
    | nil =>
      have hd : d = cursorAfter vmallocStart areas := hgap.last rfl
      rw [hneed, hd]
      exact hlast
    | cons b back =>
      have hb := hgap.back b List.mem_cons_self
      have hmem : b ∈ areas := by rw [hgap.split]; simp
      have := (hs.window b hmem).last
      simp only [pageSize, vmallocEnd] at *
      omega
  simp only [allocArea, hfind, Nat.mod_eq_of_lt hfits]
  by_cases hend : vmallocEnd < d + areaNeed size
  · exact .inl (if_pos hend)
  refine .inr ⟨_, front, back, hgap.split, by rw [if_neg hend], ?_, rfl, rfl⟩
  have hd : (d + pageSize) % 2 ^ 64 = d + pageSize := Nat.mod_eq_of_lt (by omega)
  have hs' : Spaced (front ++ back) := hgap.split ▸ hs
  refine hs'.insert ⟨?_, ?_, ?_, hup⟩ (fun x hx => ?_) fun x hx => ?_
  · have := hgap.ge
    simp only [hd]
    omega
  · simp only [hd]
    omega
  · simp only [hd]
    exact dvd_add hgap.aligned dvd_rfl
  · have := hgap.front x hx
    simp only [VmArea.Before, hd]
    omega
  · have := hgap.back x hx
    simp only [VmArea.Before, hd]
    omega

end Areas

def Grant.frame (g : Grant) : ℕ := g.page.getD 0

lemma pageAt_eq {start k : ℕ} (hd : pageSize ∣ start) (hlt : start + k * pageSize < 2 ^ 64) :
    pageAt start k = start / pageSize + k := by
  obtain ⟨n, rfl⟩ := hd
  rw [pageAt, Nat.mod_eq_of_lt hlt]
  simp only [pageSize]
  omega

namespace VmState

variable {s t : VmState} {start base n k m q : ℕ} {g : Grant} {grant : ℕ → Grant} {io : Bool}

section Tables

variable {table : ℕ → Option ℕ} {i : ℕ} {o : Option ℕ}

lemma nextLevel_some (h : (table i).isSome) : nextLevel table i o = table := if_pos h

lemma nextLevel_refused (h : table i = none) : nextLevel table i none = table := by
  rw [nextLevel, h, if_neg (by simp), ← h]
  exact update_eq_self i table

lemma nextLevel_self (h : (table i).isSome ∨ o.isSome) : (nextLevel table i o i).isSome := by
  rw [nextLevel]
  split
  · assumption
  · next hnone =>
    rw [update_self]
    exact h.resolve_left hnone

lemma nextLevel_keeps {j : ℕ} (h : (table j).isSome) : (nextLevel table i o j).isSome := by
  rw [nextLevel]
  split
  · exact h
  · next hnone =>
    have hne : j ≠ i := fun hj => hnone (hj ▸ h)
    rwa [update_of_ne hne]

end Tables

def HasTable (s : VmState) (q : ℕ) : Prop := (s.pd (q / 512 ^ 2)).isSome ∧ (s.pt (q / 512)).isSome

def Refuses (s : VmState) (q : ℕ) (g : Grant) : Prop :=
  s.pd (q / 512 ^ 2) = none ∧ g.pd = none ∨
    (s.pd (q / 512 ^ 2)).isSome ∧ s.pt (q / 512) = none ∧ g.pt = none

section GetPte

lemma getPte_same {ok : Bool} (h : s.getPte q g = (ok, t)) : t.areas = s.areas ∧ t.pte = s.pte ∧ t.taken = s.taken := by
  rw [getPte] at h
  dsimp only at h
  split at h
  · cases h
    exact ⟨rfl, rfl, rfl⟩
  · cases h
    exact ⟨rfl, rfl, rfl⟩

lemma getPte_hasTable (h : s.HasTable q) : s.getPte q g = (true, s) := by
  rw [getPte, nextLevel_some h.1]
  dsimp only
  rw [if_pos h.1, nextLevel_some h.2, h.2]

lemma getPte_refuses (h : s.Refuses q g) : s.getPte q g = (false, s) := by
  rcases h with ⟨hpd, hg⟩ | ⟨hpd, hpt, hg⟩
  · rw [getPte, hg, nextLevel_refused hpd]
    dsimp only
    rw [if_neg (by rw [hpd]; nofun)]
  · rw [getPte, nextLevel_some hpd, hg]
    dsimp only
    rw [if_pos hpd, nextLevel_refused hpt, hpt]
    rfl

lemma getPte_granted (hpd : (s.pd (q / 512 ^ 2)).isSome ∨ g.pd.isSome)
    (hpt : (s.pt (q / 512)).isSome ∨ g.pt.isSome) :
    s.getPte q g = (true, { s with pd := nextLevel s.pd (q / 512 ^ 2) g.pd
                                   pt := nextLevel s.pt (q / 512) g.pt }) := by
  rw [getPte]
  dsimp only
  rw [if_pos (nextLevel_self hpd), nextLevel_self hpt]

end GetPte

structure Mapped (s t : VmState) (start : ℕ) (grant : ℕ → Grant) (k m : ℕ) : Prop where
  areas : t.areas = s.areas
  granted : ∀ j, k ≤ j → j < m → (grant j).page = some (grant j).frame
  inside : ∀ j, k ≤ j → j < m → t.pte (start / pageSize + j) = some (grant j).frame
  outside : ∀ q, q < start / pageSize + k ∨ start / pageSize + m ≤ q → t.pte q = s.pte q
  taken : ∀ f, f ∈ t.taken ↔ f ∈ s.taken ∨ ∃ j, k ≤ j ∧ j < m ∧ f = (grant j).frame

lemma Mapped.of_eq (hareas : t.areas = s.areas) (hpte : t.pte = s.pte) (htaken : t.taken = s.taken) :
    Mapped s t start grant k k where
  areas := hareas
  granted j h₁ h₂ := absurd h₂ (not_lt.2 h₁)
  inside j h₁ h₂ := absurd h₂ (not_lt.2 h₁)
  outside q _ := congrFun hpte q
  taken f := by
    rw [htaken]
    refine ⟨.inl, fun h => h.elim id ?_⟩
    rintro ⟨j, h₁, h₂, -⟩
    exact absurd h₂ (not_lt.2 h₁)

lemma Mapped.refl : Mapped s s start grant k k := .of_eq rfl rfl rfl

lemma mapPages_mapped (grant : ℕ → Grant) (hd : pageSize ∣ start) (hlt : start + (k + n) * pageSize ≤ 2 ^ 64)
    (hfree : ∀ j, k ≤ j → j < k + n → s.pte (start / pageSize + j) = none) :
    ∃ t m, mapPages start grant n k s = .ok (t, m) ∧ k ≤ m ∧ m ≤ k + n ∧
      Mapped s t start grant k m := by
  induction n generalizing k s with
  | zero => exact ⟨s, k, rfl, le_rfl, le_rfl, .refl⟩
  | succ n ih =>
    have hpage : pageAt start k = start / pageSize + k := pageAt_eq hd (by
      simp only [pageSize] at *
      omega)
    rw [mapPages]
    cases hg : (grant k).page with
    | none => exact ⟨s, k, rfl, le_rfl, by omega, .refl⟩
    | some f =>
      rcases hget : s.getPte (pageAt start k) (grant k) with ⟨_ | _, u⟩ <;>
        obtain ⟨hareas, hpte, htaken⟩ := getPte_same hget
      · exact ⟨u, k, rfl, le_rfl, by omega, .of_eq hareas hpte htaken⟩
      dsimp only
      rw [hpage, hpte, hfree k le_rfl (by omega), if_neg (by simp), htaken]
      obtain ⟨t, m, ht, hkm, hmn, hmap⟩ := ih (k := k + 1)
        (s := { u with pte := update s.pte (start / pageSize + k) (some f)
                       taken := insert f s.taken })
        (by rwa [Nat.add_assoc, Nat.add_comm 1 n])
        fun j h₁ h₂ => by
          have hne : start / pageSize + j ≠ start / pageSize + k := by omega
          simpa [update_of_ne hne] using hfree j (by omega) (by omega)
      have hframe : (grant k).frame = f := by rw [Grant.frame, hg]; rfl
      refine ⟨t, m, ht, by omega, by omega, hmap.areas.trans hareas, fun j h₁ h₂ => ?_, fun j h₁ h₂ => ?_,
        fun q hq => ?_, fun g => ?_⟩
      · rcases eq_or_lt_of_le h₁ with rfl | h₁
        · rw [hframe, hg]
        · exact hmap.granted j h₁ h₂
      · rcases eq_or_lt_of_le h₁ with rfl | h₁
        · rw [hmap.outside _ (.inl (by omega)), hframe]
          exact update_self ..
        · exact hmap.inside j h₁ h₂
      · rw [hmap.outside q (by omega)]
        exact update_of_ne (by omega) ..
      · rw [hmap.taken g, Finset.mem_insert]
        constructor
        · rintro ((rfl | h) | ⟨j, h₁, h₂, rfl⟩)
          · exact .inr ⟨k, le_rfl, hkm, hframe.symm⟩
          · exact .inl h
          · exact .inr ⟨j, by omega, h₂, rfl⟩
        · rintro (h | ⟨j, h₁, h₂, rfl⟩)
          · exact .inl (.inr h)
          rcases eq_or_lt_of_le h₁ with rfl | h₁
          · exact .inl (.inl hframe)
          · exact .inr ⟨j, h₁, h₂, rfl⟩

def Supplied (s : VmState) (start : ℕ) (grant : ℕ → Grant) (k n : ℕ) : Prop :=
  ∀ j, k ≤ j → j < k + n → (grant j).page.isSome ∧
    ((s.pd (pageAt start j / 512 ^ 2)).isSome ∨ (grant j).pd.isSome ∨
      ∃ i, k ≤ i ∧ i < j ∧ pageAt start i / 512 ^ 2 = pageAt start j / 512 ^ 2) ∧
    ((s.pt (pageAt start j / 512)).isSome ∨ (grant j).pt.isSome ∨
      ∃ i, k ≤ i ∧ i < j ∧ pageAt start i / 512 = pageAt start j / 512)

/-- No table is made in the rounds from `k` on: a round that is reached with its page either has its tables or is refused the
first one that is missing. -/
def Spared (s : VmState) (start : ℕ) (grant : ℕ → Grant) (k n : ℕ) : Prop :=
  ∀ j, k ≤ j → j < k + n → (∀ i, k ≤ i → i ≤ j → (grant i).page.isSome) →
    (∀ i, k ≤ i → i < j → s.HasTable (pageAt start i)) →
      s.HasTable (pageAt start j) ∨ s.Refuses (pageAt start j) (grant j)

lemma Supplied.next {u : VmState} (h : s.Supplied start grant k (n + 1))
    (hpd : u.pd = nextLevel s.pd (pageAt start k / 512 ^ 2) (grant k).pd)
    (hpt : u.pt = nextLevel s.pt (pageAt start k / 512) (grant k).pt) : u.Supplied start grant (k + 1) n := by
  have hfirst := h k le_rfl (by omega)
  have hnone {d : ℕ} : ¬ ∃ i, k ≤ i ∧ i < k ∧ pageAt start i / d = pageAt start k / d := by
    rintro ⟨i, h₁, h₂, -⟩
    exact absurd h₂ (not_lt.2 h₁)
  -- a table that round `k` needs is there after it
  have hmade {table : ℕ → Option ℕ} {d : ℕ} {o o' : Option ℕ} {j : ℕ} (hj : k < j)
      (hk : (table (pageAt start k / d)).isSome ∨ o.isSome ∨ ∃ i, k ≤ i ∧ i < k ∧ pageAt start i / d = pageAt start k / d)
      (h : (table (pageAt start j / d)).isSome ∨ o'.isSome ∨
        ∃ i, k ≤ i ∧ i < j ∧ pageAt start i / d = pageAt start j / d) :
      (nextLevel table (pageAt start k / d) o (pageAt start j / d)).isSome ∨ o'.isSome ∨
        ∃ i, k + 1 ≤ i ∧ i < j ∧ pageAt start i / d = pageAt start j / d := by
    rcases h with h | h | ⟨i, h₁, h₂, heq⟩
    · exact .inl (nextLevel_keeps h)
    · exact .inr (.inl h)
    rcases eq_or_lt_of_le h₁ with rfl | h₁
    · rw [← heq]
      exact .inl (nextLevel_self (hk.imp_right fun ho => ho.resolve_right hnone))
    · exact .inr (.inr ⟨i, h₁, h₂, heq⟩)
  intro j h₁ h₂
  obtain ⟨hpage, hd, ht⟩ := h j (by omega) (by omega)
  rw [hpd, hpt]
  exact ⟨hpage, hmade h₁ hfirst.2.1 hd, hmade h₁ hfirst.2.2 ht⟩

lemma mapPages_supplied (h : s.Supplied start grant k n) (hmap : mapPages start grant n k s = .ok (t, m)) : m = k + n := by
  induction n generalizing k s with
  | zero =>
    cases hmap
    rfl
  | succ n ih =>
    obtain ⟨hpage, hd, ht⟩ := h k le_rfl (by omega)
    have hnone {d : ℕ} : ¬ ∃ i, k ≤ i ∧ i < k ∧ pageAt start i / d = pageAt start k / d := by
      rintro ⟨i, h₁, h₂, -⟩
      exact absurd h₂ (not_lt.2 h₁)
    obtain ⟨f, hf⟩ := Option.isSome_iff_exists.1 hpage
    rw [mapPages, hf, getPte_granted (hd.imp_right fun ho => ho.resolve_right hnone)
      (ht.imp_right fun ho => ho.resolve_right hnone)] at hmap
    dsimp only at hmap
    split at hmap
    · cases hmap
    · have hend := ih (h.next rfl rfl) hmap
      omega

lemma mapPages_spared (h : s.Spared start grant k n) (hmap : mapPages start grant n k s = .ok (t, m)) :
    t.pd = s.pd ∧ t.pt = s.pt := by
  induction n generalizing k s with
  | zero =>
    cases hmap
    exact ⟨rfl, rfl⟩
  | succ n ih =>
    rw [mapPages] at hmap
    cases hg : (grant k).page with
    | none =>
      rw [hg] at hmap
      cases hmap
      exact ⟨rfl, rfl⟩
    | some f =>
      rw [hg] at hmap
      have hpage : (grant k).page.isSome := by rw [hg]; rfl
      rcases h k le_rfl (by omega) (fun i h₁ h₂ => le_antisymm h₁ h₂ ▸ hpage) fun i h₁ h₂ =>
        absurd h₂ (not_lt.2 h₁) with htable | hrefuse
      · rw [getPte_hasTable htable] at hmap
        dsimp only at hmap
        split at hmap
        · cases hmap
        · have hnext : Spared { s with
              pte := update s.pte (pageAt start k) (some f)
              taken := insert f s.taken } start grant (k + 1) n := by
            intro j h₁ h₂ hp ht
            refine h j (by omega) (by omega) (fun i h₃ h₄ => ?_) fun i h₃ h₄ => ?_
            · rcases eq_or_lt_of_le h₃ with rfl | h₃
              · exact hpage
              · exact hp i h₃ h₄
            · rcases eq_or_lt_of_le h₃ with rfl | h₃
              · exact htable
              · exact ht i h₃ h₄
          have hkeep := ih hnext hmap
          exact hkeep
      · rw [getPte_refuses hrefuse] at hmap
        cases hmap
        exact ⟨rfl, rfl⟩

lemma unmapFrom_tables (start : ℕ) (io : Bool) (n k : ℕ) (s : VmState) :
    (unmapFrom start io n k s).pd = s.pd ∧ (unmapFrom start io n k s).pt = s.pt := by
  induction n generalizing k s with
  | zero => exact ⟨rfl, rfl⟩
  | succ n ih =>
    rw [unmapFrom]
    cases s.pte (pageAt start k) with
    | none => exact ih _ _
    | some f => exact ih _ _

structure Unmapped (s t : VmState) (io : Bool) (lo hi : ℕ) : Prop where
  areas : t.areas = s.areas
  inside : ∀ q, lo ≤ q → q < hi → t.pte q = none
  outside : ∀ q, q < lo ∨ hi ≤ q → t.pte q = s.pte q
  taken : ∀ f, f ∈ t.taken ↔
    f ∈ s.taken ∧ ¬ (f ≠ 0 ∧ io = false ∧ ∃ q, lo ≤ q ∧ q < hi ∧ s.pte q = some f)

lemma unmapFrom_unmapped (io : Bool) (hd : pageSize ∣ start) (hlt : start + (k + n) * pageSize ≤ 2 ^ 64) :
    Unmapped s (unmapFrom start io n k s) io (start / pageSize + k) (start / pageSize + (k + n)) := by
  induction n generalizing k s with
  | zero =>
    refine ⟨rfl, fun q h₁ h₂ => absurd h₂ (not_lt.2 h₁), fun q _ => rfl, fun f => ?_⟩
    refine ⟨fun h => ⟨h, ?_⟩, And.left⟩
    rintro ⟨-, -, q, h₁, h₂, -⟩
    exact absurd h₂ (not_lt.2 h₁)
  | succ n ih =>
    have hpage : pageAt start k = start / pageSize + k := pageAt_eq hd (by
      simp only [pageSize] at *
      omega)
    have hlt' : start + (k + 1 + n) * pageSize ≤ 2 ^ 64 := by rwa [Nat.add_assoc, Nat.add_comm 1 n]
    have hend : k + 1 + n = k + (n + 1) := by omega
    rw [unmapFrom, hpage]
    cases hq : s.pte (start / pageSize + k) with
    | none =>
      have h := ih (s := s) hlt'
      rw [hend] at h
      refine ⟨h.areas, fun q h₁ h₂ => ?_, fun q h₁ => h.outside q (by omega), fun f => ?_⟩
      · rcases eq_or_lt_of_le h₁ with rfl | h₁
        · rw [h.outside _ (.inl (by omega)), hq]
        · exact h.inside q h₁ h₂
      · rw [h.taken f]
        refine and_congr_right fun _ => not_congr (and_congr_right fun _ => and_congr_right fun _ => ?_)
        refine exists_congr fun q => ⟨fun hq' => ⟨by omega, hq'.2⟩, ?_⟩
        rintro ⟨h₁, h₂, h₃⟩
        have hne : q ≠ start / pageSize + k := by
          rintro rfl
          simp [hq] at h₃
        exact ⟨by omega, h₂, h₃⟩
    | some g =>
      have h := ih (s := { s with
        pte := update s.pte (start / pageSize + k) none
        taken := if g ≠ 0 ∧ io = false then s.taken.erase g else s.taken }) hlt'
      rw [hend] at h
      refine ⟨h.areas, fun q h₁ h₂ => ?_, fun q h₁ => ?_, fun f => ?_⟩
      · rcases eq_or_lt_of_le h₁ with rfl | h₁
        · rw [h.outside _ (.inl (by omega))]
          exact update_self ..
        · exact h.inside q h₁ h₂
      · rw [h.outside q (by omega)]
        exact update_of_ne (by omega) ..
      · rw [h.taken f]
        have hmem : f ∈ (if g ≠ 0 ∧ io = false then s.taken.erase g else s.taken) ↔
            f ∈ s.taken ∧ ¬ (f ≠ 0 ∧ io = false ∧ f = g) := by
          split
          · rw [Finset.mem_erase]
            grind
          · grind
        have hex : (∃ q, start / pageSize + (k + 1) ≤ q ∧ q < start / pageSize + (k + (n + 1)) ∧
            update s.pte (start / pageSize + k) none q = some f) ∨ f = g ↔
            ∃ q, start / pageSize + k ≤ q ∧ q < start / pageSize + (k + (n + 1)) ∧
              s.pte q = some f := by
          constructor
          · rintro (⟨q, h₁, h₂, h₃⟩ | rfl)
            · rw [update_of_ne (by omega)] at h₃
              exact ⟨q, by omega, h₂, h₃⟩
            · exact ⟨_, le_rfl, by omega, hq⟩
          · rintro ⟨q, h₁, h₂, h₃⟩
            rcases eq_or_lt_of_le h₁ with rfl | h₁
            · exact .inr (Option.some.inj (h₃.symm.trans hq))
            · refine .inl ⟨q, h₁, h₂, ?_⟩
              rwa [update_of_ne (by omega)]
        refine (and_congr_left fun _ => hmem).trans ?_
        rw [and_assoc]
        refine and_congr_right fun _ => ?_
        rw [← hex, and_or_left, and_or_left, not_or, and_comm]

lemma mapIo_mapped (hd : pageSize ∣ start)
    (hlt : start + (k + n) * pageSize ≤ 2 ^ 64) (h : mapIo start base grant n k s = .ok t) :
    t.areas = s.areas ∧ t.taken = s.taken ∧
      (∀ j, k ≤ j → j < k + n → (t.pte (start / pageSize + j)).isSome) ∧
      ∀ q, q < start / pageSize + k ∨ start / pageSize + (k + n) ≤ q → t.pte q = s.pte q := by
  induction n generalizing k s with
  | zero =>
    cases h
    exact ⟨rfl, rfl, fun j h₁ h₂ => absurd h₂ (not_lt.2 h₁), fun q _ => rfl⟩
  | succ n ih =>
    have hpage : pageAt start k = start / pageSize + k := pageAt_eq hd (by
      simp only [pageSize] at *
      omega)
    rw [mapIo, hpage] at h
    rcases hget : s.getPte (start / pageSize + k) (grant k) with ⟨_ | _, u⟩ <;> rw [hget] at h
    · cases h
    obtain ⟨hareas, hpte, htaken⟩ := getPte_same hget
    dsimp only at h
    split at h
    · cases h
    obtain ⟨h₁, h₂, h₃, h₄⟩ := ih (by rwa [Nat.add_assoc, Nat.add_comm 1 n]) h
    rw [hpte] at h₄
    refine ⟨h₁.trans hareas, h₂.trans htaken, fun j hj hj' => ?_, fun q hq => ?_⟩
    · rcases eq_or_lt_of_le hj with rfl | hj
      · rw [h₄ _ (.inl (by omega))]
        simp
      · exact h₃ j hj (by omega)
    · rw [h₄ q (by omega)]
      exact update_of_ne (by omega) ..

end VmState

end MyOS.Memory
