import MyOS.Library.System
import MyOS.Memory.Forking

/-! All address spaces of a machine from boot on, with the CPUs that run them and the rest of the
kernel. -/

namespace MyOS.Memory

open Library Library.Dyadic Function

inductive MmCall
  | map (addr len prot flags : ℕ)
  | unmap (addr len : ℕ)
  | sbrk (inc : ℤ)
  | handleFault (addr err : ℕ)
  | prefault (addr len : ℕ) (write : Bool)

def MmCall.run (m : Machine) (mm : Mm) : MmCall → Except Panic (Machine × Mm)
  | .map addr len prot flags => (mmMap m mm addr len prot flags).map Prod.snd
  | .unmap addr len => (mmUnmap m mm addr len).map Prod.snd
  | .sbrk inc => (mmSbrk m mm inc).map Prod.snd
  | .handleFault addr err => (mmHandleFault m mm addr err).map Prod.snd
  | .prefault addr len write => (mmPrefault m mm addr len write).map Prod.snd

structure World where
  machine : Machine
  mm : ℕ → Mm
  live : List ℕ := []

namespace World

def put (w : World) (i : ℕ) (m : Machine) (mm : Mm) : World :=
  { machine := m, mm := update w.mm i mm, live := w.live }

def add (w : World) (i : ℕ) (m : Machine) (mm : Mm) : World :=
  { machine := m, mm := update w.mm i mm, live := i :: w.live }

def remove (w : World) (i : ℕ) (m : Machine) : World :=
  { machine := m, mm := w.mm, live := w.live.erase i }

def before (w : World) (events : List CacheEvent) : Machine := { w.machine with caches := events }

def store (w : World) (a : ℕ) (v : UInt8) : World :=
  { w with machine := { w.machine with
      pmm := { w.machine.pmm with mem := update w.machine.pmm.mem a v } } }

end World

def Mm.Translates (mm : Mm) (va : ℕ) (pte : Pte) : Prop :=
  mm.active = true ∧ isUserAddress va = true ∧
    (mm.tlb (va / pageSize) = some pte ∨ mm.pml4.get va = some pte)

def Pte.target (pte : Pte) (va : ℕ) : ℕ := pageToPhys pte.frame + va % pageSize

inductive Action
  | create (i : ℕ) (events : List CacheEvent)
  | load (i : ℕ) (segments : List Segment) (entry : ℕ) (events : List CacheEvent)
  | call (i : ℕ) (c : MmCall) (events : List CacheEvent)
  | fork (i j : ℕ) (events : List CacheEvent)
  | destroy (i : ℕ) (events : List CacheEvent)
  | switchTo (i : ℕ)
  | switchFrom (i : ℕ)
  | fillTlb (i va : ℕ)
  | write (i va : ℕ) (v : UInt8)
  | kernelAlloc (order : ℕ) (gfp : Gfp)
  | kernelFree (b : Block)
  | kernelWrite (a : ℕ) (v : UInt8)

/-- One step of the machine. The kernel writes into its own blocks only, and a CPU that leaves or
enters an address space has an empty TLB. -/
inductive Step : World → Action → World → Prop
  | create {w : World} {m : Machine} {mm : Mm} {i : ℕ} {events : List CacheEvent} (hi : i ∉ w.live)
      (h : mmCreate (w.before events) = .ok (some mm, m)) :
      Step w (.create i events) (w.add i m mm)
  | createFails {w : World} {m : Machine} {i : ℕ} {events : List CacheEvent}
      (h : mmCreate (w.before events) = .ok (none, m)) :
      Step w (.create i events) { w with machine := m }
  | load {w : World} {m : Machine} {mm : Mm} {i entry : ℕ} {segments : List Segment}
      {events : List CacheEvent} (hi : i ∉ w.live)
      (h : loadImage (w.before events) segments entry = .ok (some mm, m)) :
      Step w (.load i segments entry events) (w.add i m mm)
  | loadFails {w : World} {m : Machine} {i entry : ℕ} {segments : List Segment}
      {events : List CacheEvent}
      (h : loadImage (w.before events) segments entry = .ok (none, m)) :
      Step w (.load i segments entry events) { w with machine := m }
  | call {w : World} {m : Machine} {mm : Mm} {i : ℕ} {c : MmCall} {events : List CacheEvent}
      (hi : i ∈ w.live) (h : c.run (w.before events) (w.mm i) = .ok (m, mm)) :
      Step w (.call i c events) (w.put i m mm)
  | fork {w : World} {m : Machine} {parent child : Mm} {i j : ℕ} {events : List CacheEvent}
      (hi : i ∈ w.live) (hj : j ∉ w.live)
      (h : mmFork (w.before events) (w.mm i) = .ok (m, parent, some child)) :
      Step w (.fork i j events) ((w.put i m parent).add j m child)
  | forkFails {w : World} {m : Machine} {parent : Mm} {i j : ℕ} {events : List CacheEvent}
      (hi : i ∈ w.live) (h : mmFork (w.before events) (w.mm i) = .ok (m, parent, none)) :
      Step w (.fork i j events) (w.put i m parent)
  | destroy {w : World} {m : Machine} {i : ℕ} {events : List CacheEvent} (hi : i ∈ w.live)
      (h : mmDestroy (w.before events) (w.mm i) = .ok m) :
      Step w (.destroy i events) (w.remove i m)
  | switchTo {w : World} {i : ℕ} (hi : i ∈ w.live) :
      Step w (.switchTo i)
        (w.put i w.machine { w.mm i with active := true, tlb := fun _ => none })
  | switchFrom {w : World} {i : ℕ} (hi : i ∈ w.live) :
      Step w (.switchFrom i)
        (w.put i w.machine { w.mm i with active := false, tlb := fun _ => none })
  | fillTlb {w : World} {i va : ℕ} {pte : Pte} (hi : i ∈ w.live) (hact : (w.mm i).active = true)
      (hva : isUserAddress va = true) (h : (w.mm i).pml4.get va = some pte) :
      Step w (.fillTlb i va) (w.put i w.machine { w.mm i with
        tlb := update (w.mm i).tlb (va / pageSize) (some pte) })
  | write {w : World} {i va : ℕ} {v : UInt8} {pte : Pte} (hi : i ∈ w.live)
      (h : (w.mm i).Translates va pte) (hw : pte.writable = true) :
      Step w (.write i va v) (w.store (pte.target va) v)
  | kernelAlloc {w : World} {order p : ℕ} {gfp : Gfp} {s : Pmm}
      (h : w.machine.pmm.allocPages order gfp = (some p, s)) :
      Step w (.kernelAlloc order gfp)
        { w with machine := { w.machine with pmm := s, kernel := ⟨p, order⟩ :: w.machine.kernel } }
  | kernelAllocFails {w : World} {order : ℕ} {gfp : Gfp} {s : Pmm}
      (h : w.machine.pmm.allocPages order gfp = (none, s)) :
      Step w (.kernelAlloc order gfp) { w with machine := { w.machine with pmm := s } }
  | kernelFree {w : World} {b : Block} {s : Pmm} (hb : b ∈ w.machine.kernel)
      (h : w.machine.pmm.freePages b.base b.order = .ok s) :
      Step w (.kernelFree b)
        { w with machine := { w.machine with pmm := s, kernel := w.machine.kernel.erase b } }
  | kernelWrite {w : World} {a : ℕ} {v : UInt8}
      (h : ∃ b ∈ w.machine.kernel, b.Contains (a / pageSize)) :
      Step w (.kernelWrite a v) (w.store a v)

/-- What `memblock` leaves for the page allocator: disjoint regions of RAM above the first MiB. -/
structure BootMemory where
  maxRam : ℕ
  mem : ℕ → UInt8
  regions : List Region
  disjoint : regions.Pairwise Region.Disjoint
  inRam : ∀ r ∈ regions, r.stop ≤ maxRam
  low : ∀ r ∈ regions, 2 ^ 20 ≤ r.base

def BootMemory.world (boot : BootMemory) : World where
  machine := { pmm := .pmmInit boot.maxRam boot.mem boot.regions }
  mm _ := { pml4 := emptyTable 0 }

def addressSpaces (boot : BootMemory) : System World Action where
  init w := w = boot.world
  step := Step

end MyOS.Memory

/-! Every call keeps the VMA list sorted, its areas apart, and the mapped pages inside them. -/

namespace MyOS.Memory

open Library Library.Radix

structure Sound (mm : Mm) : Prop where
  list : VmaList mm.vmas
  covered : ∀ va < 2 ^ 47, (mm.pml4.get va).isSome = true → ∃ v ∈ mm.vmas, v.Contains va

lemma Sound.congr {mm mm' : Mm} (h : Sound mm) (hv : mm'.vmas = mm.vmas)
    (hg : ∀ va < 2 ^ 47, (mm'.pml4.get va).isSome = true → (mm.pml4.get va).isSome = true) :
    Sound mm' where
  list := hv ▸ h.list
  covered va hva hs := hv ▸ h.covered va hva (hg va hva hs)

section Calls

variable {m m' : Machine} {mm mm' : Mm}

lemma mmCreate_sound (h : mmCreate m = .ok (some mm, m')) :
    mm.vmas = [] ∧ (∀ va, mm.pml4.get va = none) ∧ mm.active = false ∧ mm.tlb = fun _ => none := by
  rw [mmCreate] at h
  split at h
  · cases h
  · split at h
    · cases h
      exact ⟨rfl, fun va => lookup_emptyTable, rfl, rfl⟩
    · split at h <;> cases h

lemma mmMap_sound {addr len prot flags r : ℕ} (hs : Sound mm)
    (h : mmMap m mm addr len prot flags = .ok (r, m', mm')) : Sound mm' := by
  rw [mmMap] at h
  have hlen : pageSize ∣ alignUp len pageSize := dvd_alignUp len
  have hsmall := alignUp_lt len
  simp only at h
  generalize alignUp len pageSize = len at h hlen hsmall
  split at h
  · cases h
    exact hs
  rename_i hne
  split at h
  · cases h
    exact hs
  generalize (if addr = 0 then findFreeArea mm.vmas len else addr) = addr at h
  split at h
  · split at h
    · cases h
    · cases h
      exact hs
  rename_i hok
  push Not at hok
  obtain ⟨-, hal, hlow, hwrap, hhigh, hfree⟩ := hok
  have hstop : (addr + len) % 2 ^ 64 = addr + len := by
    omega
  cases h
  refine ⟨hs.list.insert ⟨?_, Nat.dvd_of_mod_eq_zero hal, ?_, hlow, hhigh⟩ ?_, fun va hva hg => ?_⟩
  · simp only [hstop]
    omega
  · simp only [hstop]
    exact (Nat.dvd_add_right (Nat.dvd_of_mod_eq_zero hal)).2 hlen
  · exact rangeFree_iff.1 (by simpa using hfree)
  · obtain ⟨v, hv, hc⟩ := hs.covered va hva hg
    exact ⟨v, mem_insertVma.2 (.inr hv), hc⟩

lemma unmap_range {addr len : ℕ} (h : ¬ (addr % pageSize ≠ 0 ∨ alignUp len pageSize = 0 ∨
      (addr + alignUp len pageSize) % 2 ^ 64 < addr)) :
    pageSize ∣ addr ∧ pageSize ∣ (addr + alignUp len pageSize) % 2 ^ 64 ∧
      addr < (addr + alignUp len pageSize) % 2 ^ 64 := by
  push Not at h
  obtain ⟨hal, hlen, hwrap⟩ := h
  have hdvd : pageSize ∣ addr := Nat.dvd_of_mod_eq_zero hal
  refine ⟨hdvd, (Nat.dvd_mod_iff (by decide)).2 ((Nat.dvd_add_right hdvd).2 (dvd_alignUp len)), ?_⟩
  have hsmall := alignUp_lt len
  omega

lemma mmUnmap_sound {addr len : ℕ} {ok : Bool} (hs : Sound mm)
    (h : mmUnmap m mm addr len = .ok (ok, m', mm')) : Sound mm' := by
  rw [mmUnmap] at h
  simp only at h
  split at h
  · cases h
    exact hs
  rename_i hok
  obtain ⟨hdvd, hend, hlt⟩ := unmap_range hok
  generalize (addr + alignUp len pageSize) % 2 ^ 64 = stop at h hend hlt
  -- what is left covers what is still mapped
  have hleft : ∀ {vs upper mm₁}, Cut addr stop mm.vmas vs upper mm mm₁ →
      ∀ va < 2 ^ 47, (mm₁.pml4.get va).isSome = true → ∃ v ∈ vs ++ upper.toList, v.Contains va := by
    intro vs upper mm₁ hc va hva hg
    rw [hc.get va hva] at hg
    split at hg
    · cases hg
    · rename_i hout
      have hex := hs.covered va hva hg
      exact hc.covers va (fun hin => hout ⟨hex, hin⟩) hex
  split at h
  · cases h
  · rename_i vs u m₁ mm₁ hu
    have hc := unmapLoop_cut hdvd hend hlt hs.list hu
    cases h
    refine ⟨hc.list.insert (hc.shape u rfl) (hc.apart u rfl), fun va hva hg => ?_⟩
    obtain ⟨v, hv, hva'⟩ := hleft hc va hva hg
    refine ⟨v, mem_insertVma.2 ?_, hva'⟩
    simpa [or_comm] using hv
  · rename_i vs m₁ mm₁ hu
    have hc := unmapLoop_cut hdvd hend hlt hs.list hu
    split at h
    · cases h
    · cases h
      refine ⟨hc.list, fun va hva hg => ?_⟩
      obtain ⟨v, hv, hva'⟩ := hleft hc va hva hg
      exact ⟨v, by simpa using hv, hva'⟩

lemma mmSbrk_sound {inc : ℤ} {r : Option ℕ} (hs : Sound mm)
    (h : mmSbrk m mm inc = .ok (r, m', mm')) : Sound mm' := by
  rw [mmSbrk] at h
  simp only at h
  split at h
  · cases h
    exact hs
  rename_i before heap after hheap
  have heq := findHeap_eq hheap
  have hlist := hs.list
  rw [heq] at hlist
  obtain ⟨-, hrest, -⟩ := vmaList_append.1 hlist
  obtain ⟨hv, hnext, -⟩ := vmaList_cons.1 hrest
  split at h
  · cases h
    exact hs
  rename_i hok
  push Not at hok
  have hpage : pageSize ∣ heap.start + pageSize := (Nat.dvd_add_left dvd_rfl).2 hv.alignedStart
  have hne := hv.nonempty
  have hfirst : heap.start + pageSize ≤ heap.stop := by
    obtain ⟨a, ha⟩ := hv.alignedStart
    obtain ⟨b, hb⟩ := hv.alignedStop
    simp only [pageSize] at *
    omega
  have htop : alignUp (newBrk mm.brk inc) pageSize ≤ mmapTop :=
    alignUp_le hok.2.2 (by decide) (by decide)
  have hend : pageSize ∣ max (alignUp (newBrk mm.brk inc) pageSize) (heap.start + pageSize) :=
    max_rec' (pageSize ∣ ·) (dvd_alignUp _) hpage
  have hlow : heap.start < max (alignUp (newBrk mm.brk inc) pageSize) (heap.start + pageSize) :=
    lt_max_of_lt_right (Nat.lt_add_of_pos_right (by decide))
  have hhigh : max (alignUp (newBrk mm.brk inc) pageSize) (heap.start + pageSize) ≤ userSpaceEnd :=
    max_le (htop.trans (by decide)) (hfirst.trans hv.high)
  generalize max (alignUp (newBrk mm.brk inc) pageSize) (heap.start + pageSize) = newEnd at *
  split at h
  · rename_i hgrow
    split at h
    · cases h
      exact hs
    rename_i hroom
    cases h
    refine ⟨hlist.setStop hlow hend hhigh fun w hw => ?_, fun va hva hg => ?_⟩
    · rw [Option.mem_def] at hw
      simpa [hw] using hroom
    · obtain ⟨v, hvm, hc⟩ := hs.covered va hva hg
      simp only [heq, List.mem_append, List.mem_cons] at hvm ⊢
      rcases hvm with hvm | rfl | hvm
      · exact ⟨v, .inl hvm, hc⟩
      · exact ⟨_, .inr (.inl rfl), hc.1, hc.2.trans hgrow⟩
      · exact ⟨v, .inr (.inr hvm), hc⟩
  · split at h
    · rename_i hshrink
      split at h
      · cases h
      rename_i m₁ mm₁ hu
      have hbound : userSpaceEnd ≤ 2 ^ 47 := by decide
      have hun := unmapRange_unmapped hu hend hv.alignedStop hshrink.le (hv.high.trans hbound)
      cases h
      refine ⟨hlist.setStop hlow hend hhigh fun w hw => ?_, fun va hva hg => ?_⟩
      · exact hshrink.le.trans (hnext w (List.mem_of_mem_head? hw))
      · rw [hun.get va hva] at hg
        split at hg
        · cases hg
        rename_i hout
        obtain ⟨v, hvm, hc⟩ := hs.covered va hva hg
        simp only [heq, List.mem_append, List.mem_cons] at hvm ⊢
        rcases hvm with hvm | rfl | hvm
        · exact ⟨v, .inl hvm, hc⟩
        · refine ⟨_, .inr (.inl rfl), hc.1, ?_⟩
          have := hc.2
          simp only
          omega
        · exact ⟨v, .inr (.inr hvm), hc⟩
    · cases h
      exact hs.congr rfl fun _ _ hg => hg

lemma vmaFor_sound {addr : ℕ} {v : Vma} (hs : Sound mm) (haddr : addr < 2 ^ 64)
    (h : vmaFor mm addr = some (v, mm')) :
    Sound mm' ∧ v ∈ mm'.vmas ∧ v.start ≤ alignDown addr pageSize ∧ addr < v.stop ∧
      mm'.pml4 = mm.pml4 := by
  obtain ⟨hdvd, hdown, hup⟩ := dvd_alignDown haddr
  rw [vmaFor] at h
  split at h
  · rename_i hf
    cases h
    have hm := List.mem_of_find?_eq_some hf
    have hp := List.find?_some hf
    simp only [Bool.and_eq_true, decide_eq_true_eq] at hp
    exact ⟨hs, hm, le_alignDown haddr (hs.list.shape v hm).alignedStart hp.1, hp.2, rfl⟩
  · split at h
    · cases h
    rename_i hg
    cases h
    obtain ⟨before, u, after, heq, rfl, rfl, hbelow, hlim, hprev⟩ := growStack_cases hg
    have hlist := hs.list
    rw [heq] at hlist
    have hu := hlist.shape u (by simp)
    have hlow : userSpaceStart ≤ alignDown addr pageSize := by
      have : userSpaceStart + pageSize ≤ userStackTop - userStackMax := by decide
      omega
    refine ⟨⟨hlist.setStart (hdown.trans hbelow.le) hdvd hlow fun w hw => ?_, fun va hva hgv => ?_⟩,
      by simp, le_rfl, hbelow.trans hu.nonempty, rfl⟩
    · have := hprev w hw
      omega
    · obtain ⟨x, hx, hc⟩ := hs.covered va hva hgv
      simp only [heq, List.mem_append, List.mem_cons] at hx ⊢
      rcases hx with hx | rfl | hx
      · exact ⟨x, .inl hx, hc⟩
      · exact ⟨_, .inr (.inl rfl), (hdown.trans hbelow.le).trans hc.1, hc.2⟩
      · exact ⟨x, .inr (.inr hx), hc⟩

lemma faultPage_get {v : Vma} {page : ℕ} {write ok : Bool} (hp : page < 2 ^ 47)
    (h : faultPage m mm v page write = .ok (ok, m', mm')) :
    mm'.vmas = mm.vmas ∧ ∀ va < 2 ^ 47, va / pageSize ≠ page / pageSize →
      mm'.pml4.get va = mm.pml4.get va := by
  rw [faultPage] at h
  have hwalk := Pmm.walkCreate_lookup 3 m.pmm mm.pml4 (page / pageSize)
  have hpath := Pmm.walkCreate_hasPath 3 m.pmm mm.pml4 (page / pageSize)
  rcases hr : m.pmm.walkCreate 3 mm.pml4 (page / pageSize) with ⟨walked, s, t⟩
  rw [hr] at hwalk hpath
  simp only [hr] at h hwalk hpath
  have hget : ∀ va, Pml4.get t va = mm.pml4.get va := fun va => hwalk _
  have hput : walked = true → ∀ pte, ∀ va < 2 ^ 47, va / pageSize ≠ page / pageSize →
      (Pml4.put t page pte).get va = mm.pml4.get va := by
    intro hw pte va hva hne
    rw [Pml4.get_put (hpath hw) hp hva, if_neg (Ne.symm hne), hget]
  split at h
  · cases h
    exact ⟨rfl, fun va _ _ => hget va⟩
  rename_i hw
  have hw : walked = true := by simpa using hw
  split at h
  · split at h
    · cases h
      exact ⟨rfl, fun va _ _ => hget va⟩
    · cases h
      exact ⟨rfl, hput hw _⟩
  · split at h
    · rw [breakCow] at h
      split at h
      · cases h
        refine ⟨(sameAreas_flushPage _ _).vmas, fun va hva hne => ?_⟩
        rw [flushPage_pml4]
        exact hput hw _ va hva hne
      · split at h
        · cases h
          exact ⟨rfl, fun va _ _ => hget va⟩
        · split at h
          · cases h
          · cases h
            refine ⟨(sameAreas_flushPage _ _).vmas, fun va hva hne => ?_⟩
            rw [flushPage_pml4]
            exact hput hw _ va hva hne
    · cases h
      exact ⟨rfl, fun va _ _ => hget va⟩

lemma faultPage_sound {v : Vma} {page : ℕ} {write ok : Bool} (hs : Sound mm) (hv : v ∈ mm.vmas)
    (hal : pageSize ∣ page) (hlo : v.start ≤ page) (hhi : page < v.stop)
    (h : faultPage m mm v page write = .ok (ok, m', mm')) : Sound mm' := by
  have hshape := hs.list.shape v hv
  have hbound : v.stop ≤ 2 ^ 47 := hshape.high.trans (by decide)
  obtain ⟨hvmas, hget⟩ := faultPage_get (by omega) h
  refine ⟨hvmas ▸ hs.list, fun va hva hg => ?_⟩
  rw [hvmas]
  by_cases hpage : va / pageSize = page / pageSize
  · obtain ⟨hpl, hph⟩ := (page_eq_iff hal).1 hpage.symm
    refine ⟨v, hv, hlo.trans hpl, ?_⟩
    obtain ⟨a, rfl⟩ := hal
    obtain ⟨b, hb⟩ := hshape.alignedStop
    simp only [pageSize] at *
    omega
  · rw [hget va hva hpage] at hg
    exact hs.covered va hva hg

lemma mmHandleFault_sound {addr err : ℕ} {ok : Bool} (hs : Sound mm)
    (h : mmHandleFault m mm addr err = .ok (ok, m', mm')) : Sound mm' := by
  rw [mmHandleFault] at h
  split at h
  · cases h
    exact hs
  rename_i hu
  have haddr : addr < 2 ^ 64 := by
    have : userSpaceEnd < 2 ^ 64 := by decide
    simp only [isUserAddress, decide_eq_false_iff_not, not_not] at hu
    omega
  split at h
  · cases h
    exact hs
  rename_i v mm₁ hf
  obtain ⟨hs₁, hv, hlo, hhi, -⟩ := vmaFor_sound hs haddr hf
  split at h
  · cases h
    exact hs₁
  · obtain ⟨hdvd, hdown, -⟩ := dvd_alignDown haddr
    exact faultPage_sound hs₁ hv hdvd hlo (hdown.trans_lt hhi) h

lemma prefaultPages_sound {n page : ℕ} {write ok : Bool} (hs : Sound mm) (hal : pageSize ∣ page)
    (hb : page + n * pageSize ≤ 2 ^ 64) (h : prefaultPages write n m mm page = .ok (ok, m', mm')) :
    Sound mm' := by
  induction n generalizing m mm page with
  | zero =>
    cases h
    exact hs
  | succ n ih =>
    have hn : (n + 1) * pageSize = n * pageSize + pageSize := by rw [Nat.add_mul, one_mul]
    have hpos : 0 < pageSize := by decide
    have hpage : page < 2 ^ 64 := by omega
    rw [prefaultPages] at h
    split at h
    · cases h
      exact hs
    rename_i v mm₁ hf
    obtain ⟨hs₁, hv, hlo, hhi, -⟩ := vmaFor_sound hs hpage hf
    rw [alignDown_of_dvd hpage hal] at hlo
    split at h
    · cases h
      exact hs₁
    split at h
    · cases h
    · rename_i hfault
      cases h
      exact faultPage_sound hs₁ hv hal hlo hhi hfault
    · rename_i hfault
      exact ih (faultPage_sound hs₁ hv hal hlo hhi hfault)
        ((Nat.dvd_add_left dvd_rfl).2 hal) (by omega) h

lemma prefault_inside {addr stop : ℕ} (h : ¬ (stop < addr ∨ isUserAddress addr = false ∨ userSpaceEnd < stop)) :
    pageSize ∣ alignDown addr pageSize ∧
      alignDown addr pageSize + pagesIn (alignDown addr pageSize) stop * pageSize ≤ 2 ^ 64 := by
  push Not at h
  obtain ⟨hwrap, -, hend⟩ := h
  have hbound : userSpaceEnd < 2 ^ 47 := by decide
  obtain ⟨hdvd, hdown, -⟩ := dvd_alignDown (show addr < 2 ^ 64 by omega)
  refine ⟨hdvd, ?_⟩
  generalize alignDown addr pageSize = page at *
  simp only [pagesIn, pageSize]
  omega

lemma mmPrefault_sound {addr len : ℕ} {write ok : Bool} (hs : Sound mm)
    (h : mmPrefault m mm addr len write = .ok (ok, m', mm')) : Sound mm' := by
  rw [mmPrefault] at h
  simp only at h
  split at h
  · cases h
    exact hs
  split at h
  · cases h
    exact hs
  rename_i hok
  obtain ⟨hdvd, hinside⟩ := prefault_inside hok
  exact prefaultPages_sound hs hdvd hinside h

lemma exists_of_map_snd {α : Type} {r : Except Panic (α × Machine × Mm)}
    (h : r.map Prod.snd = .ok (m', mm')) : ∃ a, r = .ok (a, m', mm') := by
  rcases r with _ | ⟨a, r⟩
  · cases h
  · exact ⟨a, congrArg (fun x => Except.ok (a, x)) (Except.ok.inj h)⟩

lemma MmCall.run_sound {c : MmCall} (hs : Sound mm) (h : c.run m mm = .ok (m', mm')) : Sound mm' := by
  cases c <;> obtain ⟨r, hr⟩ := exists_of_map_snd h
  case map => exact mmMap_sound hs hr
  case unmap => exact mmUnmap_sound hs hr
  case sbrk => exact mmSbrk_sound hs hr
  case handleFault => exact mmHandleFault_sound hs hr
  case prefault => exact mmPrefault_sound hs hr

end Calls

section Fork

variable {m m' : Machine} {parent parent' : Mm} {child : Option Mm}

lemma copyVmas_eq {vs copies : List Vma} (h : copyVmas vs m = (true, copies, m')) : copies = vs := by
  induction vs generalizing m copies with
  | nil =>
    cases h
    rfl
  | cons v vs ih =>
    rw [copyVmas] at h
    split at h
    · cases h
    · rename_i m₁ _
      rcases hr : copyVmas vs m₁ with ⟨ok, rest, m₂⟩
      simp only [hr] at h
      cases h
      rw [ih hr]

lemma mmFork_sound (hs : Sound parent) (h : mmFork m parent = .ok (m', parent', child)) :
    Sound parent' ∧ ∀ c ∈ child, Sound c := by
  rw [mmFork] at h
  split at h
  · cases h
  · cases h
    exact ⟨hs, by simp⟩
  rename_i child₀ m₁ hc
  obtain ⟨-, hnone, -, -⟩ := mmCreate_sound hc
  rcases hv : copyVmas parent.vmas m₁ with ⟨ok, vmas, m₂⟩
  simp only [hv] at h
  cases ok with
  | false =>
    simp only [Bool.false_eq_true, if_false] at h
    split at h
    · cases h
    · cases h
      refine ⟨hs.congr (sameAreas_flushAll _).vmas fun va _ hg => ?_, by simp⟩
      rwa [flushAll_pml4] at hg
  | true =>
    simp only [if_true] at h
    split at h
    · cases h
    rename_i ok s parentTables childTables hcopy
    have hget := fun (va : ℕ) (hva : va < 2 ^ 47) => copyUserTables_get hcopy hva
    have hparent : Sound ({ parent with pml4 := parentTables } : Mm).flushAll := by
      refine hs.congr (sameAreas_flushAll _).vmas fun va hva hg => ?_
      rw [flushAll_pml4] at hg
      rcases (hget va hva).1 with he | he
      · rwa [← he]
      · rw [he, Option.isSome_map] at hg
        exact hg
    split at h
    · cases h
      refine ⟨hparent, fun c hc => ?_⟩
      cases hc
      obtain rfl := copyVmas_eq hv
      refine hs.congr rfl fun va hva hg => ?_
      rcases (hget va hva).2 with he | he
      · rw [he, hnone] at hg
        cases hg
      · rw [he, Option.isSome_map] at hg
        exact hg
    · split at h
      · cases h
      · cases h
        exact ⟨hparent, by simp⟩

end Fork

section Load

variable {m m' : Machine} {mm mm' : Mm} {ok : Bool}

lemma loadSegment_sound {g : Segment} (hs : Sound mm)
    (h : loadSegment m mm g = .ok (ok, m', mm')) : Sound mm' := by
  rw [loadSegment] at h
  simp only at h
  split at h
  · cases h
    exact hs
  split at h
  · cases h
  rename_i hm
  have hs₁ := mmMap_sound hs hm
  split at h
  · cases h
    exact hs₁
  split at h
  · cases h
    exact hs₁
  · exact mmPrefault_sound hs₁ h

lemma elfLoad_sound {segments : List Segment} (hs : Sound mm)
    (h : elfLoad segments m mm = .ok (ok, m', mm')) : Sound mm' := by
  induction segments generalizing m mm with
  | nil =>
    cases h
    exact hs
  | cons g rest ih =>
    rw [elfLoad] at h
    split at h
    · cases h
    · rename_i hg
      cases h
      exact loadSegment_sound hs hg
    · rename_i hg
      exact ih (loadSegment_sound hs hg) h

lemma mapHeapAndStack_sound (hs : Sound mm) (h : mapHeapAndStack m mm = .ok (ok, m', mm')) :
    Sound mm' := by
  rw [mapHeapAndStack] at h
  split at h
  · cases h
  rename_i hm
  have hs₁ := mmMap_sound hs hm
  split at h
  · cases h
    exact hs₁
  split at h
  · cases h
  rename_i hm₂
  have hs₂ := mmMap_sound hs₁ hm₂
  split at h
  · cases h
    exact hs₂
  · exact mmPrefault_sound hs₂ h

lemma mmCreate_empty_sound (h : mmCreate m = .ok (some mm, m')) : Sound mm := by
  obtain ⟨hv, hg, -, -⟩ := mmCreate_sound h
  exact ⟨hv ▸ vmaList_nil, fun va _ hs => by simp [hg va] at hs⟩

lemma loadImage_sound {segments : List Segment} {entry : ℕ}
    (h : loadImage m segments entry = .ok (some mm, m')) : Sound mm := by
  rw [loadImage] at h
  split at h
  · cases h
  · cases h
  rename_i mm₀ m₁ hc
  have hs₀ := mmCreate_empty_sound hc
  split at h
  · cases h
  rename_i ok₁ m₂ mm₁ hl
  have hs₁ := elfLoad_sound hs₀ hl
  simp only at h
  split at h
  · cases h
  · rename_i hlay
    cases h
    split at hlay
    · refine mapHeapAndStack_sound ?_ hlay
      exact hs₁.congr rfl fun _ _ hg => hg
    · cases hlay
  · split at h <;> cases h

end Load

lemma forall_put {P : Mm → Prop} {w : World} {i : ℕ} {m : Machine} {mm : Mm}
    (hs : ∀ j ∈ w.live, P (w.mm j)) (hm : P mm) : ∀ j ∈ (w.put i m mm).live, P ((w.put i m mm).mm j) := by
  intro j hj
  by_cases hji : j = i
  · subst hji
    simpa [World.put] using hm
  · simpa [World.put, hji] using hs j hj

lemma forall_add {P : Mm → Prop} {w : World} {i : ℕ} {m : Machine} {mm : Mm}
    (hs : ∀ j ∈ w.live, P (w.mm j)) (hm : P mm) : ∀ j ∈ (w.add i m mm).live, P ((w.add i m mm).mm j) := by
  intro j hj
  by_cases hji : j = i
  · subst hji
    simpa [World.add] using hm
  · have hjl : j ∈ w.live := by simpa [World.add, hji] using hj
    simpa [World.add, hji] using hs j hjl

lemma Step.sound {w w' : World} {action : Action} (h : Step w action w')
    (hs : ∀ i ∈ w.live, Sound (w.mm i)) : ∀ i ∈ w'.live, Sound (w'.mm i) := by
  cases h with
  | create hi hc => exact forall_add hs (mmCreate_empty_sound hc)
  | createFails _ | loadFails _ | write _ _ _ | kernelAlloc _ | kernelAllocFails _
  | kernelFree _ _ | kernelWrite _ =>
    exact hs
  | load hi hl => exact forall_add hs (loadImage_sound hl)
  | call hi hc => exact forall_put hs (MmCall.run_sound (hs _ hi) hc)
  | fork hi hj hf =>
    obtain ⟨hp, hc⟩ := mmFork_sound (hs _ hi) hf
    exact forall_add (forall_put hs hp) (hc _ rfl)
  | forkFails hi hf => exact forall_put hs (mmFork_sound (hs _ hi) hf).1
  | destroy hi _ => exact fun j hj => hs j (List.mem_of_mem_erase hj)
  | switchTo hi => exact forall_put hs ((hs _ hi).congr rfl fun _ _ hg => hg)
  | switchFrom hi => exact forall_put hs ((hs _ hi).congr rfl fun _ _ hg => hg)
  | fillTlb hi _ _ _ => exact forall_put hs ((hs _ hi).congr rfl fun _ _ hg => hg)

structure VmaInvariant (mm : Mm) : Prop where
  sorted : mm.vmas.Pairwise fun v w => v.start < w.start
  nonempty : ∀ v ∈ mm.vmas, v.start < v.stop
  aligned : ∀ v ∈ mm.vmas, pageSize ∣ v.start ∧ pageSize ∣ v.stop
  inside : ∀ v ∈ mm.vmas, userSpaceStart ≤ v.start ∧ v.stop ≤ userSpaceEnd
  disjoint : mm.vmas.Pairwise fun v w => ∀ a, ¬ (v.Contains a ∧ w.Contains a)
  mapped : ∀ va < 2 ^ 47, (mm.pml4.get va).isSome = true → ∃ v ∈ mm.vmas, v.Contains va

lemma Sound.vmaInvariant {mm : Mm} (h : Sound mm) : VmaInvariant mm where
  sorted := h.list.apart.imp_of_mem fun hv _ hvw =>
    (h.list.shape _ hv).nonempty.trans_le hvw
  nonempty v hv := (h.list.shape v hv).nonempty
  aligned v hv := ⟨(h.list.shape v hv).alignedStart, (h.list.shape v hv).alignedStop⟩
  inside v hv := ⟨(h.list.shape v hv).low, (h.list.shape v hv).high⟩
  disjoint := h.list.apart.imp fun hvw _ ha =>
    absurd (hvw.trans ha.2.1) (not_le.2 ha.1.2)
  mapped := h.covered

theorem reachable_vmaInvariant {boot : BootMemory} {w : World}
    (h : (addressSpaces boot).Reachable w) : ∀ i ∈ w.live, VmaInvariant (w.mm i) := by
  have hsound : ∀ i ∈ w.live, Sound (w.mm i) :=
    h.invariant (I := fun w => ∀ i ∈ w.live, Sound (w.mm i))
      (by rintro w rfl; simp [BootMemory.world]) fun _ _ _ hs hst => hst.sound hs
  exact fun i hi => (hsound i hi).vmaInvariant

def smallBoot : BootMemory where
  maxRam := 0x110000
  mem _ := 0
  regions := [⟨0x100000, 0x110000⟩]
  disjoint := List.pairwise_singleton _ _
  inRam := by decide
  low := by decide

lemma smallBoot_image : ∃ m mm,
    loadImage (smallBoot.world.before []) [⟨0x400000, 0x1000, 0x800, protRead ||| protExec⟩] 0x400000 =
      .ok (some mm, m) := by
  have hsome : ((loadImage (smallBoot.world.before []) [⟨0x400000, 0x1000, 0x800, protRead ||| protExec⟩]
      0x400000).toOption.bind Prod.fst).isSome = true := by decide +kernel
  rcases hl : loadImage (smallBoot.world.before []) [⟨0x400000, 0x1000, 0x800, protRead ||| protExec⟩]
    0x400000 with p | ⟨_ | mm, m⟩ <;> rw [hl] at hsome
  · cases hsome
  · cases hsome
  · exact ⟨m, mm, rfl⟩

theorem reachable_vmaInvariant_load : ∃ m mm,
    loadImage (smallBoot.world.before []) [⟨0x400000, 0x1000, 0x800, protRead ||| protExec⟩] 0x400000 =
      .ok (some mm, m) ∧ VmaInvariant mm := by
  obtain ⟨m, mm, hl⟩ := smallBoot_image
  have hw := reachable_vmaInvariant (.step (.load 0 _ _ []) (.init rfl) (.load (by simp [BootMemory.world]) hl))
  exact ⟨m, mm, hl, by simpa [World.add] using hw 0 (by simp [World.add])⟩

end MyOS.Memory
