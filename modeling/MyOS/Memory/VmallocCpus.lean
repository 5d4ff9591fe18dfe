import MyOS.Memory.Vmalloc

/-! `vmalloc` and `vfree` on several CPUs: every critical section, and every page that is mapped or
unmapped, is a step. -/

namespace MyOS.Memory

open Library Function

/-- Where the CPU that works on an area is, with the number of pages that its loop is done with. -/
inductive VmPhase
  | unused
  | mapping (k : ℕ)
  | live
  | undoing (k : ℕ)
  | releasing (k : ℕ)
  deriving DecidableEq

def VmPhase.Held (n : ℕ) : VmPhase → ℕ → Prop
  | .unused, _ => False
  | .mapping k, j => j < k
  | .live, j => j < n
  | .undoing k, j => k ≤ j ∧ j < n
  | .releasing k, j => k ≤ j ∧ j < n

def VmPhase.Listed : VmPhase → Prop
  | .mapping _ | .live | .undoing _ => True
  | .unused | .releasing _ => False

structure VmCpus where
  list : List ℕ := []
  area : ℕ → VmArea := fun _ => ⟨0, 0, false⟩
  phase : ℕ → VmPhase := fun _ => .unused
  pte : ℕ → Option ℕ := fun _ => none
  taken : Finset ℕ := ∅
  panicked : Bool := false

inductive PageGrant
  | noPage
  | noTable (frame : ℕ)
  | page (frame : ℕ)
  deriving DecidableEq

inductive VmCpuAction
  | alloc (p size : ℕ)
  | map (p : ℕ) (grant : PageGrant)
  | finish (p : ℕ)
  | undo (p : ℕ)
  | undone (p : ℕ)
  | free (addr : ℕ)
  | unmap (p : ℕ)
  | freed (p : ℕ)

namespace VmCpus

def pages (s : VmCpus) (p : ℕ) : ℕ := (s.area p).size / pageSize

def setPhase (s : VmCpus) (p : ℕ) (f : VmPhase) : VmCpus :=
  { s with phase := update s.phase p f }

def alloc (s : VmCpus) (p size : ℕ) : VmCpus :=
  match allocArea (s.list.map s.area) size false with
  | none => s
  | some (a, areas) =>
    { s with list := s.list.insertIdx (areas.idxOf a) p
             area := update s.area p a
             phase := update s.phase p (.mapping 0) }

def map (s : VmCpus) (p k : ℕ) : PageGrant → VmCpus
  | .page frame =>
    if (s.pte (pageAt (s.area p).start k)).isSome then { s with panicked := true }
    else { s with pte := update s.pte (pageAt (s.area p).start k) (some frame)
                  taken := insert frame s.taken
                  phase := update s.phase p (.mapping (k + 1)) }
  | _ => { s with area := update s.area p { s.area p with size := k * pageSize }
                  phase := update s.phase p (.undoing 0) }

def unmap (s : VmCpus) (p k : ℕ) (next : VmPhase) : VmCpus :=
  match s.pte (pageAt (s.area p).start k) with
  | none => s.setPhase p next
  | some frame =>
    { s with pte := update s.pte (pageAt (s.area p).start k) none
             taken := if frame ≠ 0 ∧ (s.area p).io = false then s.taken.erase frame else s.taken
             phase := update s.phase p next }

def del (s : VmCpus) (p : ℕ) (f : VmPhase) : VmCpus :=
  { s with list := s.list.erase p, phase := update s.phase p f }

def free (s : VmCpus) (addr : ℕ) : VmCpus :=
  match s.list.find? fun p => (s.area p).start = alignDown addr pageSize with
  | none => { s with panicked := true }
  | some p => if (s.area p).io then { s with panicked := true } else s.del p (.releasing 0)

/-- Only the address of a live area is freed; the page allocator hands out no frame in use. -/
inductive Step : VmCpus → VmCpuAction → VmCpus → Prop
  | alloc {s : VmCpus} {p size : ℕ} (hp : s.phase p = .unused) (hs : size < 2 ^ 64)
      (hpos : size ≠ 0) : Step s (.alloc p size) (s.alloc p size)
  | map {s : VmCpus} {p k : ℕ} {grant : PageGrant} (hp : s.phase p = .mapping k)
      (hk : k < s.pages p) (hg : ∀ f, grant = .page f → f ∉ s.taken ∧ f ≠ 0) :
      Step s (.map p grant) (s.map p k grant)
  | finish {s : VmCpus} {p : ℕ} (hp : s.phase p = .mapping (s.pages p)) :
      Step s (.finish p) (s.setPhase p .live)
  | undo {s : VmCpus} {p k : ℕ} (hp : s.phase p = .undoing k) (hk : k < s.pages p) :
      Step s (.undo p) (s.unmap p k (.undoing (k + 1)))
  | undone {s : VmCpus} {p k : ℕ} (hp : s.phase p = .undoing k) (hk : s.pages p ≤ k) :
      Step s (.undone p) (s.del p .unused)
  | free {s : VmCpus} {p : ℕ} (hp : s.phase p = .live) :
      Step s (.free (s.area p).start) (s.free (s.area p).start)
  | unmap {s : VmCpus} {p k : ℕ} (hp : s.phase p = .releasing k) (hk : k < s.pages p) :
      Step s (.unmap p) (s.unmap p k (.releasing (k + 1)))
  | freed {s : VmCpus} {p k : ℕ} (hp : s.phase p = .releasing k) (hk : s.pages p ≤ k) :
      Step s (.freed p) (s.setPhase p .unused)

def system : System VmCpus VmCpuAction where
  init s := s = {}
  step s a t := s.panicked = false ∧ Step s a t

def Pending (s : VmCpus) (p q : ℕ) : Prop :=
  ∃ k, s.phase p = .releasing k ∧ (s.area p).start / pageSize + k ≤ q ∧
    q < (s.area p).start / pageSize + s.pages p

def Allowed (s : VmCpus) : VmCpuAction → Prop
  | .alloc _ size => EndFits (s.list.map s.area) size
  | .map p (.page _) => ∀ k, s.phase p = .mapping k →
      ∀ r, ¬ s.Pending r ((s.area p).start / pageSize + k)
  | _ => True

structure CpuSafe (s : VmCpus) : Prop where
  running : s.panicked = false
  mapped : ∀ p, s.phase p = .live → ∀ q, (s.area p).Covers q →
    ∃ frame ∈ s.taken, s.pte q = some frame
  once : ∀ p q frame, s.pte p = some frame → s.pte q = some frame → p = q
  apart : ∀ p r q, s.phase p = .live → s.phase r = .live → (s.area p).Covers q →
    (s.area r).Covers q → p = r

def Owns (s : VmCpus) (p q : ℕ) : Prop :=
  ∃ j, q = (s.area p).start / pageSize + j ∧ (s.phase p).Held (s.pages p) j

structure Listing (s : VmCpus) : Prop where
  nodup : s.list.Nodup
  listed : ∀ p, p ∈ s.list ↔ (s.phase p).Listed
  spaced : Spaced (s.list.map s.area)
  window : ∀ p, s.phase p ≠ .unused → (s.area p).InWindow ∧ (s.area p).io = false
  bound : ∀ p k, s.phase p = .mapping k → k ≤ s.pages p

structure Owned (s : VmCpus) : Prop where
  mapped : ∀ q, (s.pte q).isSome ↔ ∃ p, s.Owns p q
  unique : ∀ p r q, s.Owns p q → s.Owns r q → p = r
  held : ∀ q frame, s.pte q = some frame → frame ∈ s.taken ∧ frame ≠ 0
  once : ∀ p q frame, s.pte p = some frame → s.pte q = some frame → p = q

structure CpuInv (s : VmCpus) : Prop where
  running : s.panicked = false
  listing : s.Listing
  owned : s.Owned

section Listing

variable {s t : VmCpus} {p r q k : ℕ} {f : VmPhase}

lemma Listing.covers (hs : s.Listing) (h : s.Owns p q) : (s.area p).Covers q := by
  obtain ⟨j, rfl, hj⟩ := h
  have hused : s.phase p ≠ .unused := by
    intro hp
    rw [hp] at hj
    exact hj
  refine (hs.window p hused).1.covers_iff.2 ⟨by omega, ?_⟩
  have hlt : j < s.pages p := by
    cases hp : s.phase p with
    | unused => exact absurd hp hused
    | mapping k =>
      rw [hp] at hj
      exact lt_of_lt_of_le hj (hs.bound p k hp)
    | live => rwa [hp] at hj
    | undoing k | releasing k =>
      rw [hp] at hj
      exact hj.2
  simp only [pages] at hlt
  omega

lemma Listing.eq_of_area (hs : s.Listing) (hp : p ∈ s.list) (hr : r ∈ s.list)
    (h : s.area p = s.area r) : p = r :=
  List.inj_on_of_nodup_map hs.spaced.nodup hp hr h

lemma Listing.eq_of_covers (hs : s.Listing) (hp : p ∈ s.list) (hr : r ∈ s.list)
    (hpq : (s.area p).Covers q) (hrq : (s.area r).Covers q) : p = r := by
  by_contra hne
  exact hs.spaced.other_covers (List.mem_map_of_mem hp) (List.mem_map_of_mem hr)
    (fun h => hne (hs.eq_of_area hp hr h)) hpq hrq

lemma Listing.eq_of_start (hs : s.Listing) (hp : p ∈ s.list) (hr : r ∈ s.list)
    (h : (s.area p).start = (s.area r).start) : p = r := by
  by_contra hne
  rcases hs.spaced.apart (List.mem_map_of_mem hp) (List.mem_map_of_mem hr)
    (fun h => hne (hs.eq_of_area hp hr h)) with h' | h' <;>
  · simp only [VmArea.Before, pageSize] at h'
    omega

lemma Listing.pageAt (hs : s.Listing) (hp : s.phase p ≠ .unused) (hk : k < s.pages p) :
    Memory.pageAt (s.area p).start k = (s.area p).start / pageSize + k := by
  have hw := (hs.window p hp).1
  refine pageAt_eq hw.start ?_
  have hlast := hw.last
  have : (k + 1) * pageSize ≤ (s.area p).size := by
    rw [← Nat.div_mul_cancel hw.size]
    exact Nat.mul_le_mul_right _ hk
  simp only [pageSize, vmallocEnd] at *
  omega

lemma Listing.setPhase (hs : s.Listing) (hlist : t.list = s.list) (harea : t.area = s.area)
    (hphase : t.phase = update s.phase p f) (hf : f.Listed ↔ (s.phase p).Listed)
    (hused : f ≠ .unused → s.phase p ≠ .unused) (hb : ∀ k, f = .mapping k → k ≤ s.pages p) :
    t.Listing where
  nodup := hlist ▸ hs.nodup
  listed r := by
    rw [hlist, hphase, hs.listed r]
    by_cases hr : r = p
    · rw [hr, update_self]
      exact hf.symm
    · rw [update_of_ne hr]
  spaced := by
    rw [hlist, harea]
    exact hs.spaced
  window r hr := by
    rw [harea]
    refine hs.window r ?_
    rw [hphase] at hr
    by_cases hrp : r = p
    · rw [hrp] at hr ⊢
      rw [update_self] at hr
      exact hused hr
    · rwa [update_of_ne hrp] at hr
  bound r k hr := by
    rw [pages, harea]
    rw [hphase] at hr
    by_cases hrp : r = p
    · rw [hrp, update_self] at hr
      rw [hrp]
      exact hb k hr
    · rw [update_of_ne hrp] at hr
      exact hs.bound r k hr

lemma Listing.del (hs : s.Listing) (hf : ¬ f.Listed) (hp : s.phase p ≠ .unused) :
    (s.del p f).Listing where
  nodup := hs.nodup.erase p
  listed r := by
    simp only [VmCpus.del, hs.nodup.mem_erase_iff, hs.listed r]
    by_cases hr : r = p
    · simp [hr, hf]
    · simp [hr]
  spaced := hs.spaced.sublist (List.erase_sublist.map _)
  window r hr := by
    by_cases hrp : r = p
    · rw [hrp]
      exact hs.window p hp
    · simp only [VmCpus.del, update_of_ne hrp] at hr
      exact hs.window r hr
  bound r k hr := by
    by_cases hrp : r = p
    · simp only [VmCpus.del, hrp, update_self] at hr
      rw [hr] at hf
      exact absurd trivial hf
    · simp only [VmCpus.del, update_of_ne hrp] at hr
      exact hs.bound r k hr

lemma Listing.shorten (hs : s.Listing) (hp : s.phase p = .mapping k) :
    ({ s with area := update s.area p { s.area p with size := k * pageSize }
              phase := update s.phase p (.undoing 0) } : VmCpus).Listing := by
  have hused : s.phase p ≠ .unused := by simp [hp]
  obtain ⟨hw, hio⟩ := hs.window p hused
  have hle : k * pageSize ≤ (s.area p).size := by
    rw [← Nat.div_mul_cancel hw.size]
    exact Nat.mul_le_mul_right _ (hs.bound p k hp)
  have hw' : VmArea.InWindow { s.area p with size := k * pageSize } :=
    ⟨hw.first, le_trans (by simp only; omega) hw.last, hw.start, dvd_mul_left _ _⟩
  refine ⟨hs.nodup, fun r => ?_, ⟨?_, ?_⟩, fun r hr => ?_, fun r j hr => ?_⟩
  · rw [hs.listed r]
    by_cases hr : r = p
    · subst hr
      simp [hp, VmPhase.Listed]
    · simp [update_of_ne hr]
  · rw [List.pairwise_map]
    refine (List.pairwise_map.1 hs.spaced.before).imp fun {x y} h => ?_
    simp only [VmArea.Before, update_apply] at h ⊢
    split <;> split <;> simp_all <;> omega
  · intro a ha
    obtain ⟨r, hr, rfl⟩ := List.mem_map.1 ha
    by_cases hrp : r = p
    · simp only [hrp, update_self]
      exact hw'
    · simp only [update_of_ne hrp]
      exact hs.spaced.window _ (List.mem_map_of_mem hr)
  · by_cases hrp : r = p
    · simp only [hrp, update_self]
      exact ⟨hw', hio⟩
    · simp only [update_of_ne hrp] at hr ⊢
      exact hs.window r hr
  · by_cases hrp : r = p
    · simp [hrp] at hr
    · simp only [update_of_ne hrp, pages] at hr ⊢
      exact hs.bound r j hr

end Listing

section Owned

variable {s t : VmCpus} {p q k frame : ℕ} {f : VmPhase}

lemma Owned.congr (hs : s.Owned) (hpte : t.pte = s.pte) (htaken : t.taken = s.taken)
    (h : ∀ p q, t.Owns p q ↔ s.Owns p q) : t.Owned where
  mapped q := by simp only [hpte, hs.mapped q, h]
  unique p r q hp hr := hs.unique p r q ((h p q).1 hp) ((h r q).1 hr)
  held := by
    rw [hpte, htaken]
    exact hs.held
  once := by
    rw [hpte]
    exact hs.once

lemma owns_update {r : ℕ} (harea : ∀ r, r ≠ p → t.area r = s.area r)
    (hphase : ∀ r, r ≠ p → t.phase r = s.phase r) (hr : r ≠ p) : t.Owns r q ↔ s.Owns r q := by
  simp only [Owns, pages, harea r hr, hphase r hr]

lemma Owned.setPhase (hs : s.Owned) (hpte : t.pte = s.pte) (htaken : t.taken = s.taken)
    (harea : t.area = s.area) (hphase : t.phase = update s.phase p f)
    (hf : ∀ j, f.Held (s.pages p) j ↔ (s.phase p).Held (s.pages p) j) : t.Owned := by
  refine hs.congr hpte htaken fun r q => ?_
  by_cases hr : r = p
  · subst hr
    simp only [Owns, pages, harea, hphase, update_self] at hf ⊢
    simp only [hf]
  · exact owns_update (fun r _ => by rw [harea])
      (fun r hr => by rw [hphase, update_of_ne hr]) hr

lemma Owned.mapPage (hs : s.Owned) (hp : s.phase p = .mapping k) (hfresh : frame ∉ s.taken)
    (hzero : frame ≠ 0) (hq : s.pte ((s.area p).start / pageSize + k) = none)
    (hpte : t.pte = update s.pte ((s.area p).start / pageSize + k) (some frame))
    (htaken : t.taken = insert frame s.taken) (harea : t.area = s.area)
    (hphase : t.phase = update s.phase p (.mapping (k + 1))) : t.Owned := by
  have howns : ∀ r q, t.Owns r q ↔
      s.Owns r q ∨ r = p ∧ q = (s.area p).start / pageSize + k := by
    intro r q
    by_cases hr : r = p
    · subst hr
      simp only [Owns, harea, hphase, update_self, hp, VmPhase.Held, true_and]
      constructor
      · rintro ⟨j, rfl, hj⟩
        rcases Nat.lt_succ_iff_lt_or_eq.1 hj with hj | rfl
        · exact .inl ⟨j, rfl, hj⟩
        · exact .inr rfl
      · rintro (⟨j, rfl, hj⟩ | rfl)
        · exact ⟨j, rfl, by omega⟩
        · exact ⟨k, rfl, by omega⟩
    · rw [owns_update (s := s) (p := p) (fun r _ => by rw [harea])
        (fun r hr => by rw [hphase, update_of_ne hr]) hr]
      simp [hr]
  have hnone : ∀ r, ¬ s.Owns r ((s.area p).start / pageSize + k) := fun r hr => by
    have := (hs.mapped _).2 ⟨r, hr⟩
    simp [hq] at this
  have hold : ∀ q g, t.pte q = some g →
      q = (s.area p).start / pageSize + k ∧ g = frame ∨ s.pte q = some g := by
    intro q g hg
    rw [hpte, update_apply] at hg
    split at hg
    · next h => exact .inl ⟨h, (Option.some.inj hg).symm⟩
    · exact .inr hg
  refine ⟨fun q => ?_, fun r r' q hr hr' => ?_, fun q g hg => ?_, fun q q' g hg hg' => ?_⟩
  · by_cases hqk : q = (s.area p).start / pageSize + k
    · refine iff_of_true ?_ ⟨p, (howns p q).2 (.inr ⟨rfl, hqk⟩)⟩
      simp [hpte, hqk]
    · rw [hpte, update_of_ne hqk]
      simp [hs.mapped q, howns, hqk]
  · rcases (howns r q).1 hr with h | ⟨hrp, h⟩ <;> rcases (howns r' q).1 hr' with h' | ⟨hrp', h'⟩
    · exact hs.unique r r' q h h'
    · exact absurd (h' ▸ h) (hnone r)
    · exact absurd (h ▸ h') (hnone r')
    · rw [hrp, hrp']
  · rw [htaken]
    rcases hold q g hg with ⟨-, rfl⟩ | hg
    · exact ⟨Finset.mem_insert_self .., hzero⟩
    · exact ⟨Finset.mem_insert_of_mem (hs.held q g hg).1, (hs.held q g hg).2⟩
  · rcases hold q g hg with ⟨h, rfl⟩ | hg <;> rcases hold q' g hg' with ⟨h', hgf⟩ | hg'
    · rw [h, h']
    · exact absurd (hs.held q' _ hg').1 hfresh
    · exact absurd (hgf ▸ (hs.held q _ hg).1) hfresh
    · exact hs.once q q' g hg hg'

@[simp] lemma unmap_area : (s.unmap p k f).area = s.area := by
  rw [VmCpus.unmap]
  split <;> rfl

@[simp] lemma unmap_list : (s.unmap p k f).list = s.list := by
  rw [VmCpus.unmap]
  split <;> rfl

@[simp] lemma unmap_phase : (s.unmap p k f).phase = update s.phase p f := by
  rw [VmCpus.unmap]
  split <;> rfl

@[simp] lemma unmap_panicked : (s.unmap p k f).panicked = s.panicked := by
  rw [VmCpus.unmap]
  split <;> rfl

lemma Owned.unmapPage (hs : s.Owned) (hk : k < s.pages p)
    (hp : ∀ j, (s.phase p).Held (s.pages p) j ↔ k ≤ j ∧ j < s.pages p)
    (hf : ∀ j, f.Held (s.pages p) j ↔ k + 1 ≤ j ∧ j < s.pages p) (hio : (s.area p).io = false)
    (hpage : Memory.pageAt (s.area p).start k = (s.area p).start / pageSize + k) :
    (s.unmap p k f).Owned := by
  have hown : s.Owns p ((s.area p).start / pageSize + k) := ⟨k, rfl, (hp k).2 ⟨le_rfl, hk⟩⟩
  obtain ⟨frame, hframe⟩ := Option.isSome_iff_exists.1 ((hs.mapped _).2 ⟨p, hown⟩)
  have hzero := (hs.held _ _ hframe).2
  have howns : ∀ r q, (s.unmap p k f).Owns r q ↔
      s.Owns r q ∧ q ≠ (s.area p).start / pageSize + k := by
    intro r q
    by_cases hr : r = p
    · subst hr
      simp only [Owns, pages, unmap_area, unmap_phase, update_self] at hf hp ⊢
      simp only [hf, hp]
      constructor
      · rintro ⟨j, rfl, hj⟩
        exact ⟨⟨j, rfl, by omega⟩, by omega⟩
      · rintro ⟨⟨j, rfl, hj⟩, hne⟩
        exact ⟨j, rfl, by omega⟩
    · rw [owns_update (s := s) (p := p) (fun r _ => by rw [unmap_area])
        (fun r hr => by rw [unmap_phase, update_of_ne hr]) hr]
      refine ⟨fun h => ⟨h, ?_⟩, And.left⟩
      rintro rfl
      exact hr (hs.unique r p _ h hown)
  have hpte : (s.unmap p k f).pte =
      update s.pte ((s.area p).start / pageSize + k) none := by
    simp only [VmCpus.unmap, hpage, hframe]
  have htaken : (s.unmap p k f).taken = s.taken.erase frame := by
    simp only [VmCpus.unmap, hpage, hframe, hio, and_true, if_pos hzero]
  have hold : ∀ q g, (s.unmap p k f).pte q = some g →
      s.pte q = some g ∧ q ≠ (s.area p).start / pageSize + k := by
    intro q g hg
    rw [hpte, update_apply] at hg
    split at hg
    · cases hg
    · next h => exact ⟨hg, h⟩
  refine ⟨fun q => ?_, fun r r' q hr hr' => ?_, fun q g hg => ?_, fun q q' g hg hg' => ?_⟩
  · by_cases hqk : q = (s.area p).start / pageSize + k
    · simp [hpte, howns, hqk]
    · rw [hpte, update_of_ne hqk]
      simp [hs.mapped q, howns, hqk]
  · exact hs.unique r r' q ((howns r q).1 hr).1 ((howns r' q).1 hr').1
  · obtain ⟨hg, hne⟩ := hold q g hg
    rw [htaken]
    refine ⟨Finset.mem_erase.2 ⟨?_, (hs.held q g hg).1⟩, (hs.held q g hg).2⟩
    rintro rfl
    exact hne (hs.once q _ g hg hframe)
  · exact hs.once q q' g (hold q g hg).1 (hold q' g hg').1

end Owned

variable {s t : VmCpus} {p q : ℕ} {a : VmCpuAction}

lemma insertIdx_front {α : Type*} (front back : List α) (x : α) :
    (front ++ back).insertIdx front.length x = front ++ x :: back := by
  induction front with
  | nil => rfl
  | cons y front ih => simpa using ih

lemma CpuInv.alloc {size : ℕ} (hs : s.CpuInv) (hp : s.phase p = .unused)
    (hfit : EndFits (s.list.map s.area) size) : (s.alloc p size).CpuInv := by
  unfold VmCpus.alloc
  rcases allocArea_some false hs.listing.spaced hfit with
    hnone | ⟨a, front, back, hsplit, hsome, hnew, -, hio⟩
  · rw [hnone]
    exact hs
  rw [hsome]
  have hnot : a ∉ front := fun ha =>
    (List.nodup_cons.1 (List.nodup_middle.1 hnew.nodup)).1 (List.mem_append_left _ ha)
  have hidx : (front ++ a :: back).idxOf a = front.length := by
    rw [List.idxOf_append_of_notMem hnot, List.idxOf_cons_self, Nat.add_zero]
  have hp' : p ∉ s.list := by
    rw [hs.listing.listed p, hp]
    exact id
  have hentries : (s.list.insertIdx front.length p).map (update s.area p a) =
      front ++ a :: back := by
    have hold : s.list.map (update s.area p a) = s.list.map s.area :=
      List.map_congr_left fun r hr => by
        rw [update_of_ne]
        rintro rfl
        exact hp' hr
    rw [List.map_insertIdx, update_self, hold, hsplit, insertIdx_front]
  have hlen : front.length ≤ s.list.length := by
    have := congrArg List.length hsplit
    simp only [List.length_map, List.length_append] at this
    omega
  simp only [hidx]
  refine ⟨hs.running, ⟨?_, fun r => ?_, ?_, fun r hr => ?_, fun r k hr => ?_⟩, ?_⟩
  · exact (List.perm_insertIdx p s.list hlen).nodup_iff.2 (List.nodup_cons.2 ⟨hp', hs.listing.nodup⟩)
  · rw [List.mem_insertIdx hlen, hs.listing.listed r]
    by_cases hr : r = p
    · simp [hr, VmPhase.Listed]
    · simp [hr]
  · rw [hentries]
    exact hnew
  · by_cases hrp : r = p
    · simp only [hrp, update_self]
      exact ⟨hnew.window a (by simp), hio⟩
    · simp only [update_of_ne hrp] at hr ⊢
      exact hs.listing.window r hr
  · by_cases hrp : r = p
    · simp only [hrp, update_self, VmPhase.mapping.injEq] at hr
      omega
    · simp only [pages, update_of_ne hrp] at hr ⊢
      exact hs.listing.bound r k hr
  · refine hs.owned.congr rfl rfl fun r q => ?_
    by_cases hr : r = p
    · simp [hr, Owns, hp, VmPhase.Held]
    · exact owns_update (fun r hr => update_of_ne hr ..)
        (fun r hr => update_of_ne hr ..) hr

lemma CpuInv.map {k : ℕ} {grant : PageGrant} (hs : s.CpuInv) (hp : s.phase p = .mapping k)
    (hk : k < s.pages p) (hg : ∀ f, grant = .page f → f ∉ s.taken ∧ f ≠ 0)
    (hallowed : s.Allowed (.map p grant)) : (s.map p k grant).CpuInv := by
  have hused : s.phase p ≠ .unused := by simp [hp]
  have hlisted : ∀ r f, s.phase r = f → f.Listed → r ∈ s.list := fun r f h hf =>
    (hs.listing.listed r).2 (h ▸ hf)
  have hpl : p ∈ s.list := hlisted p _ hp trivial
  have hpage := hs.listing.pageAt hused hk
  have hundo : ({ s with
      area := update s.area p { s.area p with size := k * pageSize }
      phase := update s.phase p (.undoing 0) } : VmCpus).CpuInv := by
    refine ⟨hs.running, hs.listing.shorten hp, hs.owned.congr rfl rfl fun r q => ?_⟩
    by_cases hr : r = p
    · subst hr
      simp [Owns, hp, VmPhase.Held, pages, Nat.mul_div_cancel k (show 0 < pageSize by decide)]
    · exact owns_update (fun r hr => update_of_ne hr ..)
        (fun r hr => update_of_ne hr ..) hr
  cases grant with
  | noPage => exact hundo
  | noTable f => exact hundo
  | page f =>
    have hfree : s.pte ((s.area p).start / pageSize + k) = none := by
      by_contra hne
      obtain ⟨r, hr⟩ := (hs.owned.mapped _).1 (Option.isSome_iff_ne_none.2 hne)
      have hcov := hs.listing.covers hr
      have hself : (s.area p).Covers ((s.area p).start / pageSize + k) :=
        (hs.listing.window p hused).1.covers_iff.2 ⟨by omega, by simp only [pages] at hk; omega⟩
      have heq : r ∈ s.list → r = p := fun hrl => hs.listing.eq_of_covers hrl hpl hcov hself
      have hrp : r ≠ p := by
        rintro rfl
        obtain ⟨j, hj, hheld⟩ := hr
        rw [hp] at hheld
        simp only [VmPhase.Held] at hheld
        omega
      obtain ⟨j, hj, hheld⟩ := hr
      cases hphase : s.phase r with
      | unused =>
        rw [hphase] at hheld
        exact hheld
      | mapping i | live | undoing i => exact hrp (heq (hlisted r _ hphase trivial))
      | releasing i =>
        rw [hphase] at hheld
        exact hallowed k hp r ⟨i, hphase, by have := hheld.1; omega, by have := hheld.2; omega⟩
    simp only [VmCpus.map, hpage, hfree, Option.isSome_none, Bool.false_eq_true, if_false]
    refine ⟨hs.running, ?_, ?_⟩
    · refine hs.listing.setPhase (p := p) rfl rfl rfl (by simp [hp, VmPhase.Listed])
        (fun _ => hused) fun j hj => ?_
      cases hj
      exact hk
    · exact hs.owned.mapPage hp (hg f rfl).1 (hg f rfl).2 hfree rfl rfl rfl rfl

lemma CpuInv.free (hs : s.CpuInv) (hp : s.phase p = .live) :
    (s.free (s.area p).start).CpuInv := by
  have hused : s.phase p ≠ .unused := by simp [hp]
  obtain ⟨hw, hio⟩ := hs.listing.window p hused
  have hpl : p ∈ s.list := by
    rw [hs.listing.listed p, hp]
    trivial
  have hdown : alignDown (s.area p).start pageSize = (s.area p).start := by
    refine alignDown_of_dvd ?_ hw.start
    have := hw.last
    simp only [pageSize, vmallocEnd] at *
    omega
  rw [VmCpus.free, hdown]
  split
  · next hnone => simpa using List.find?_eq_none.1 hnone p hpl
  · next r hr =>
    have hrl := List.mem_of_find?_eq_some hr
    have hstart : (s.area r).start = (s.area p).start := by simpa using List.find?_some hr
    obtain rfl := hs.listing.eq_of_start hrl hpl hstart
    simp only [hio, Bool.false_eq_true, if_false]
    refine ⟨hs.running, hs.listing.del id hused, ?_⟩
    exact hs.owned.setPhase (p := r) rfl rfl rfl rfl fun j => by simp [hp, VmPhase.Held]

lemma CpuInv.unmap {k : ℕ} {f : VmPhase} (hs : s.CpuInv) (hk : k < s.pages p)
    (hused : s.phase p ≠ .unused) (hlisted : f.Listed ↔ (s.phase p).Listed)
    (hmapping : ∀ k, f ≠ .mapping k)
    (hp : ∀ j, (s.phase p).Held (s.pages p) j ↔ k ≤ j ∧ j < s.pages p)
    (hf : ∀ j, f.Held (s.pages p) j ↔ k + 1 ≤ j ∧ j < s.pages p) : (s.unmap p k f).CpuInv where
  running := unmap_panicked.trans hs.running
  listing := hs.listing.setPhase (p := p) (f := f) unmap_list unmap_area unmap_phase hlisted
    (fun _ => hused) fun k hk => absurd hk (hmapping k)
  owned := hs.owned.unmapPage hk hp hf (hs.listing.window p hused).2 (hs.listing.pageAt hused hk)

lemma CpuInv.step (hs : s.CpuInv) (hallowed : s.Allowed a) (h : Step s a t) : t.CpuInv := by
  cases h with
  | alloc hp => exact hs.alloc hp hallowed
  | map hp hk hg => exact hs.map hp hk hg hallowed
  | finish hp =>
    refine ⟨hs.running, hs.listing.setPhase rfl rfl rfl (by simp [hp, VmPhase.Listed]) (by simp [hp])
      (by simp), hs.owned.setPhase rfl rfl rfl rfl fun j => by simp [hp, VmPhase.Held]⟩
  | undo hp hk | unmap hp hk =>
    exact hs.unmap hk (by simp [hp]) (by simp [hp, VmPhase.Listed]) (by simp)
      (fun j => by simp [hp, VmPhase.Held]) fun j => by simp [VmPhase.Held]
  | undone hp hk =>
    refine ⟨hs.running, hs.listing.del id (by simp [hp]), ?_⟩
    refine hs.owned.setPhase rfl rfl rfl rfl fun j => iff_of_false id ?_
    rw [hp]
    exact fun h => absurd (h.1.trans_lt h.2) (not_lt.2 hk)
  | free hp => exact hs.free hp
  | freed hp hk =>
    refine ⟨hs.running, hs.listing.setPhase rfl rfl rfl (by simp [hp, VmPhase.Listed])
      (fun h => absurd rfl h) (by simp), ?_⟩
    refine hs.owned.setPhase rfl rfl rfl rfl fun j => iff_of_false id ?_
    rw [hp]
    exact fun h => absurd (h.1.trans_lt h.2) (not_lt.2 hk)

lemma cpuInv_init : CpuInv {} where
  running := rfl
  listing := ⟨List.nodup_nil, by simp [VmPhase.Listed], ⟨List.Pairwise.nil, by simp⟩, by simp, by simp⟩
  owned := ⟨by simp [Owns, VmPhase.Held], by simp [Owns, VmPhase.Held], by simp, by simp⟩

lemma CpuInv.safe (hs : s.CpuInv) : s.CpuSafe := by
  have howns : ∀ p, s.phase p = .live → ∀ q, (s.area p).Covers q → s.Owns p q := by
    intro p hp q hq
    have hw := (hs.listing.window p (by simp [hp])).1
    obtain ⟨h₁, h₂⟩ := hw.covers_iff.1 hq
    obtain ⟨j, rfl⟩ := Nat.exists_eq_add_of_le h₁
    refine ⟨j, rfl, ?_⟩
    rw [hp]
    simp only [VmPhase.Held, pages]
    omega
  refine ⟨hs.running, fun p hp q hq => ?_, hs.owned.once, fun p r q hp hr hpq hrq => ?_⟩
  · obtain ⟨frame, h⟩ := Option.isSome_iff_exists.1
      ((hs.owned.mapped q).2 ⟨p, howns p hp q hq⟩)
    exact ⟨frame, (hs.owned.held q frame h).1, h⟩
  · exact hs.owned.unique p r q (howns p hp q hpq) (howns r hr q hrq)

theorem reachable_cpuSafe (h : (system.guarded Allowed).Reachable s) : s.CpuSafe :=
  (h.invariant (I := CpuInv) (fun _ h => h ▸ cpuInv_init)
    fun _ _ _ hs h => hs.step h.1 h.2.2).safe

def onePage : VmCpus :=
  ((({} : VmCpus).alloc 1 4096).map 1 0 (.page 5)).setPhase 1 .live

theorem reachable_cpuSafe_onePage : onePage.phase 1 = .live ∧ onePage.CpuSafe := by
  have h₁ : (system.guarded Allowed).Reachable (({} : VmCpus).alloc 1 4096) :=
    .step (.alloc 1 4096) (.init rfl) ⟨show _ < _ by decide, rfl, .alloc rfl (by decide) (by decide)⟩
  have h₂ : (system.guarded Allowed).Reachable ((({} : VmCpus).alloc 1 4096).map 1 0 (.page 5)) := by
    refine .step (.map 1 (.page 5)) h₁ ⟨fun k _ r => ?_, rfl, .map rfl (by decide) ?_⟩
    · rintro ⟨j, hj, -⟩
      by_cases hr : r = 1
      · subst hr
        cases hj
      · have : ((({} : VmCpus).alloc 1 4096).phase) r = .unused := update_of_ne hr ..
        rw [this] at hj
        cases hj
    · rintro f hf
      cases hf
      exact ⟨Finset.notMem_empty _, by decide⟩
  have h₃ : (system.guarded Allowed).Reachable onePage :=
    .step (.finish 1) h₂ ⟨trivial, rfl, .finish rfl⟩
  exact ⟨rfl, reachable_cpuSafe h₃⟩

theorem not_cpuSafe_reuse : ¬ ∀ s, system.Reachable s → s.CpuSafe := by
  intro hsafe
  have h₁ : system.Reachable onePage := by
    refine .step (.finish 1) (.step (.map 1 (.page 5)) (.step (.alloc 1 4096) (.init rfl)
      ⟨rfl, .alloc rfl (by decide) (by decide)⟩) ⟨rfl, .map rfl (by decide) ?_⟩) ⟨rfl, .finish rfl⟩
    rintro f hf
    cases hf
    exact ⟨Finset.notMem_empty _, by decide⟩
  have h₂ : system.Reachable (onePage.free (onePage.area 1).start) :=
    .step (.free (onePage.area 1).start) h₁ ⟨rfl, .free rfl⟩
  have h₃ : system.Reachable ((onePage.free (onePage.area 1).start).alloc 2 4096) :=
    .step (.alloc 2 4096) h₂ ⟨rfl, .alloc rfl (by decide) (by decide)⟩
  have h₄ : system.Reachable (((onePage.free (onePage.area 1).start).alloc 2 4096).map 2 0 (.page 6)) :=
    .step (.map 2 (.page 6)) h₃ ⟨rfl, .map rfl (by decide) (by
      rintro f hf
      cases hf
      exact ⟨by decide, by decide⟩)⟩
  have hpanic := (hsafe _ h₄).running
  revert hpanic
  decide

end VmCpus

end MyOS.Memory
