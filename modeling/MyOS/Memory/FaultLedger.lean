import MyOS.Memory.SpaceLedger

/-! Page faults and the loading of programs: a new page reads as zeros, and a shared page is copied
before it is written. -/

namespace MyOS.Memory

open Library.Dyadic Library.Radix

section Fault

variable {tabs refs : ℕ → ℕ} {m m' : Machine} {mm mm' : Mm} {page : ℕ} {q : Pte}

lemma served_put (hp : HasPath ptes 3 mm.pml4 (page / pageSize)) (hpage : page < 2 ^ 47)
    (hl : FrameLedger False m'.pmm m'.kernel (tabs + tableCount 4 mm.pml4)
      (refs + frameCount 4 (mm.pml4.put page (some q))))
    (hbytes : SameBytes tabs (refs + frameCount 4 mm.pml4) m.pmm m'.pmm)
    (hq : refs q.frame + frameCount 4 mm.pml4 q.frame = 0 ∨
      refs q.frame + frameCount 4 mm.pml4 q.frame = 1 ∧ ∃ old ∈ mm.pml4.get page, old.frame = q.frame)
    (hbyte : ∀ va < 2 ^ 47, va / pageSize = page / pageSize → m'.pmm.mem (q.target va) = mm.byte m va)
    (ht : mm'.pml4 = mm.pml4.put page (some q)) (ha : mm'.active = mm.active)
    (hc : mm.Coherent → mm'.Coherent) : Served 0 0 tabs refs m m' mm mm' := by
  have hcount : frameCount 4 (mm.pml4.put page (some q)) + mappedBy (mm.pml4.get page) =
      frameCount 4 mm.pml4 + mappedBy (some q) := frameCount_setLeaf hp (fits_page hpage)
  have hget := fun va (hva : va < 2 ^ 47) => Pml4.get_put (v := some q) hp hpage hva
  rw [← ht] at hl hcount hget
  have hmax : ∀ f, frameCount 4 mm'.pml4 f ≤ max (frameCount 4 mm.pml4 f) (1 - refs f) := by
    intro f
    have hf := congrFun hcount f
    simp only [Pi.add_apply, mappedBy, Option.elim_some] at hf
    by_cases hfq : f = q.frame
    · subst hfq
      rw [Pi.single_eq_same] at hf
      rcases hq with hz | ⟨-, old, hold, hframe⟩
      · omega
      · rw [hold, Option.elim_some, hframe, Pi.single_eq_same] at hf
        omega
    · rw [Pi.single_eq_of_ne hfq] at hf
      omega
  have hone : refs q.frame + frameCount 4 mm'.pml4 q.frame = 1 := by
    have hpos : 0 < frameCount 4 mm'.pml4 q.frame :=
      frameCount_get hpage ((hget page hpage).trans (if_pos rfl))
    have hle := hmax q.frame
    rcases hq with hz | ⟨hz, old, hold, hframe⟩
    · omega
    · have hold := frameCount_get hpage hold
      rw [hframe] at hold
      omega
  refine ⟨?_, hmax, hbytes.mono fun f hf => ?_, ha, hc, fun va hva pte hg _ => ?_, fun va hva => ?_⟩
  · rwa [SpaceLedger, TreeLedger, ht, tableCount_put hp hpage, ← ht]
  · rw [Pi.add_apply]
    omega
  · rw [hget va hva] at hg
    split at hg
    · cases hg
      exact .inr hone
    · exact .inl hg
  · rw [if_neg (by omega), Mm.byte, hget va hva]
    split
    · rename_i hsame
      exact hbyte va hva hsame.symm
    · rw [Mm.byte]
      cases hg : mm.pml4.get va with
      | none => rfl
      | some pte =>
        have hpos := frameCount_get hva hg
        refine mem_target hbytes ?_
        rw [Pi.add_apply]
        omega

lemma walkCreate_released (hpage : page < 2 ^ 47) (h : SpaceLedger tabs refs m mm.pml4) :
    Released tabs refs m { m with pmm := (m.pmm.walkCreate 3 mm.pml4 (page / pageSize)).2.1 } mm
      { mm with pml4 := (m.pmm.walkCreate 3 mm.pml4 (page / pageSize)).2.2 } := by
  obtain ⟨added, hw⟩ := walkCreate_walked mm.pml4 (fits_page hpage) h
  have hlook := Pmm.walkCreate_lookup 3 m.pmm mm.pml4 (page / pageSize)
  have hframes : frameCount 4 (m.pmm.walkCreate 3 mm.pml4 (page / pageSize)).2.2 = frameCount 4 mm.pml4 :=
    frameCount_congr fun va => hlook _
  refine ⟨?_, hframes.le, ?_, rfl, fun hc => hc.congr rfl rfl fun va _ _ hg => (hlook _).trans hg⟩
  · rw [SpaceLedger, TreeLedger, hw.tables, hframes, ← add_assoc]
    exact hw.ledger
  · rw [hframes]
    refine hw.bytes.mono fun f hf => ?_
    rw [Pi.add_apply]
    omega

lemma allocPage_zero {s s' : Pmm} {p va : ℕ}
    (hmem : ∀ a, s'.mem a = if ({ zero := true } : Gfp).zero ∧ pageToPhys p ≤ a ∧
      a < pageToPhys p + pageSize * 2 ^ 0 then 0 else s.mem a) (hq : q.frame = p) :
    s'.mem (q.target va) = 0 := by
  have hoff := Nat.mod_lt va (show 0 < pageSize by decide)
  rw [hmem, if_pos]
  rw [Pte.target, hq]
  exact ⟨rfl, Nat.le_add_right _ _, by omega⟩

lemma breakCow_serves (v : Vma) (hpage : page < 2 ^ 47) (hg : mm.pml4.get page = some q)
    (h : SpaceLedger tabs refs m mm.pml4) : Serves tabs refs m mm (breakCow m mm v page q) := by
  have hpath : HasPath ptes 3 mm.pml4 (page / pageSize) := hasPath_of_lookup hg
  have hpos := frameCount_get hpage hg
  have hcount : ∀ q', frameCount 4 (mm.pml4.put page (some q')) + Pi.single q.frame 1 =
      frameCount 4 mm.pml4 + Pi.single q'.frame 1 := by
    intro q'
    have hset := frameCount_setLeaf (v := some q') hpath (fits_page hpage)
    have hlook : lookup ptes 3 mm.pml4 (page / pageSize) = some q := hg
    rwa [hlook] at hset
  have hold : ∀ va < 2 ^ 47, va / pageSize = page / pageSize →
      mm.byte m va = m.pmm.mem (q.target va) := by
    intro va _ hva
    have hgva : mm.pml4.get va = some q := by
      rw [Pml4.get, hva]
      exact hg
    rw [Mm.byte, hgva, Option.elim_some]
  rw [breakCow]
  split
  · rename_i hone
    have href := h.refcount q.frame (by rw [Pi.add_apply]; omega)
    rw [hone, Pi.add_apply] at href
    generalize hq : ({ q with writable := true, cow := false } : Pte) = q'
    have hframe : q'.frame = q.frame := by rw [← hq]
    have hsame := hcount q'
    rw [hframe] at hsame
    refine ⟨true, m, _, rfl, served_put hpath hpage ?_ .refl (.inr ⟨?_, q, hg, hframe.symm⟩) (fun va hva he => ?_)
      (flushPage_pml4 _ _) (sameAreas_flushPage _ _).active fun hc => hc.flushPage hpath hpage⟩
    · rw [add_right_cancel hsame]
      exact h
    · rw [hframe]
      omega
    · rw [hold va hva he, Pte.target, Pte.target, hframe]
  · rcases ha : m.pmm.allocPages 0 {} with ⟨_ | p, s⟩
    · obtain rfl := h.allocPages_none ha
      exact ⟨false, m, mm, rfl, (Released.refl h).unchanged fun _ _ => rfl⟩
    · obtain ⟨hl, href, -, -, hmem⟩ := h.allocPages ha
      obtain ⟨htab, hfree⟩ := hl.kernel_apart
      have hbytes := hl.sameBytes hmem
      have hcopy : FrameLedger False (s.copyFrame q.frame p) (pageBlock p :: m.kernel)
          (tabs + tableCount 4 mm.pml4) (refs + frameCount 4 mm.pml4) := hl.of_eq rfl rfl rfl
      have hcount' : frameCount 4 (mm.pml4.put page (some (v.pte p))) + Pi.single q.frame 1 =
          frameCount 4 mm.pml4 + Pi.single p 1 := hcount (v.pte p)
      have hmap := hcopy.setMapcount href
      rw [add_assoc, ← hcount', ← add_assoc] at hmap
      obtain ⟨s', hs', hl', hm'⟩ := hmap.dropMapping
      simp only [hs']
      have hmem' : ∀ a, s'.mem a = if pageToPhys p ≤ a ∧ a < pageToPhys p + pageSize then
          s.mem (pageToPhys q.frame + (a - pageToPhys p)) else s.mem a := fun a => congrFun hm' a
      refine ⟨true, _, _, rfl, served_put (q := v.pte p) hpath hpage hl' (fun a ha' => ?_) (.inl hfree)
        (fun va hva he => ?_) (flushPage_pml4 _ _) (sameAreas_flushPage _ _).active
        fun hc => hc.flushPage hpath hpage⟩
      · -- the copy is in a page that held nothing
        have hne : a / pageSize ≠ p := by
          rintro rfl
          rw [Pi.add_apply] at htab
          omega
        rw [hmem', if_neg (by simp only [pageToPhys, pageSize] at hne ⊢; omega)]
        refine hbytes a ?_
        rw [Pi.add_apply tabs]
        omega
      · have hoff := Nat.mod_lt va (show 0 < pageSize by decide)
        have hsrc : pageToPhys q.frame + ((v.pte p).target va - pageToPhys p) = q.target va := by
          simp only [Pte.target, Vma.pte, Nat.add_sub_cancel_left]
        rw [hold va hva he, hmem', if_pos ⟨Nat.le_add_right _ _, Nat.add_lt_add_left hoff _⟩, hsrc]
        refine mem_target hbytes ?_
        rw [Pi.add_apply, Pi.add_apply]
        omega

lemma faultPage_serves (v : Vma) (write : Bool) (hpage : page < 2 ^ 47)
    (h : SpaceLedger tabs refs m mm.pml4) :
    Serves tabs refs m mm (faultPage m mm v page write) := by
  have hk := walkCreate_released hpage h
  have hlook := Pmm.walkCreate_lookup 3 m.pmm mm.pml4 (page / pageSize)
  have hpath := Pmm.walkCreate_hasPath 3 m.pmm mm.pml4 (page / pageSize)
  rw [faultPage]
  rcases hr : m.pmm.walkCreate 3 mm.pml4 (page / pageSize) with ⟨walked, s, t⟩
  rw [hr] at hk hlook hpath
  simp only
  have hs := hk.unchanged fun va _ => hlook _
  cases walked with
  | false => exact hs.ok false
  | true =>
    have hpath := hpath rfl
    rw [if_neg (by decide)]
    cases hg : Pml4.get t page with
    | none =>
      rcases ha : s.allocPages 0 { zero := true } with ⟨_ | p, s'⟩
      · obtain rfl := hk.ledger.allocPages_none ha
        exact hs.ok false
      · obtain ⟨hl, href, -, -, hmem⟩ := hk.ledger.allocPages ha
        obtain ⟨-, hfree⟩ := hl.kernel_apart
        have hmap := hl.setMapcount href
        have hcount := frameCount_setLeaf (v := some (v.pte p)) hpath (fits_page hpage)
        have hnone : lookup ptes 3 t (page / pageSize) = none := hg
        have hput : frameCount 4 (Pml4.put t page (some (v.pte p))) = frameCount 4 t + Pi.single p 1 := by
          rw [hnone] at hcount
          exact (add_zero _).symm.trans hcount
        refine ⟨true, _, _, rfl, hs.trans (served_put (q := v.pte p) hpath hpage ?_ ((hl.sameBytes hmem).mono ?_)
          (.inl hfree) (fun va hva he => ?_) rfl rfl fun hc => ?_)⟩
        · rw [hput, ← add_assoc]
          exact hmap
        · intro f hf
          rw [Pi.add_apply tabs]
          omega
        · have hgva : Pml4.get t va = none := by
            rw [Pml4.get, he]
            exact hg
          rw [Mm.byte, hgva]
          exact allocPage_zero hmem rfl
        · refine hc.congr rfl rfl fun va hva pte hgva => ?_
          rw [Pml4.get_put hpath hpage hva, if_neg, hgva]
          intro he
          rw [Pml4.get, ← he] at hgva
          cases hg.symm.trans hgva
    | some pte =>
      simp only
      split
      · exact hs.serves (breakCow_serves v hpage hg hk.ledger)
      · exact hs.ok _

lemma vmaFor_served {addr : ℕ} {v : Vma} (hs : Sound mm) (haddr : addr < 2 ^ 64) (hf : vmaFor mm addr = some (v, mm'))
    (h : SpaceLedger tabs refs m mm.pml4) :
    Served 0 0 tabs refs m m mm mm' ∧ addr < 2 ^ 47 := by
  obtain ⟨hs', hv, -, hhi, ht⟩ := vmaFor_sound hs haddr hf
  have hlt : addr < 2 ^ 47 := hhi.trans_le ((hs'.list.shape v hv).high.trans (by decide))
  have hsame : mm'.active = mm.active ∧ mm'.tlb = mm.tlb := by
    rw [vmaFor] at hf
    split at hf
    · cases hf
      exact ⟨rfl, rfl⟩
    · split at hf <;> cases hf
      exact ⟨rfl, rfl⟩
  exact ⟨((Kept.refl h).released ht hsame.1 hsame.2).unchanged fun va _ => by rw [ht], hlt⟩

lemma mmHandleFault_serves (addr err : ℕ) (hs : Sound mm) (h : SpaceLedger tabs refs m mm.pml4) :
    Serves tabs refs m mm (mmHandleFault m mm addr err) := by
  rw [mmHandleFault]
  split
  · exact .same h false
  rename_i hu
  have haddr : addr < 2 ^ 64 := (lt_of_isUserAddress (Bool.eq_true_of_not_eq_false hu)).trans (by decide)
  split
  · exact .same h false
  rename_i v mm₁ hf
  obtain ⟨hs₁, hlt⟩ := vmaFor_served hs haddr hf h
  split
  · exact hs₁.ok false
  · obtain ⟨-, hdown, -⟩ := dvd_alignDown haddr
    exact hs₁.serves (faultPage_serves v _ (hdown.trans_lt hlt) hs₁.ledger)

lemma prefaultPages_serves {n : ℕ} (write : Bool) (hs : Sound mm) (hal : pageSize ∣ page)
    (hb : page + n * pageSize ≤ 2 ^ 64) (h : SpaceLedger tabs refs m mm.pml4) :
    Serves tabs refs m mm (prefaultPages write n m mm page) := by
  induction n generalizing m mm page with
  | zero => exact .same h true
  | succ n ih =>
    have hn : (n + 1) * pageSize = n * pageSize + pageSize := by rw [Nat.add_mul, one_mul]
    have hpos : 0 < pageSize := by decide
    have hpage : page < 2 ^ 64 := by omega
    rw [prefaultPages]
    split
    · exact .same h false
    rename_i v mm₁ hf
    obtain ⟨hs₁, hlt⟩ := vmaFor_served hs hpage hf h
    split
    · exact hs₁.ok false
    obtain ⟨hsound, hv, hlo, hhi, -⟩ := vmaFor_sound hs hpage hf
    rw [alignDown_of_dvd hpage hal] at hlo
    obtain ⟨ok, m₂, mm₂, hr, hs₂⟩ := faultPage_serves v write hlt hs₁.ledger
    have hsound₂ := faultPage_sound hsound hv hal hlo hhi hr
    rw [hr]
    cases ok with
    | false => exact (hs₁.trans hs₂).ok false
    | true =>
      exact (hs₁.trans hs₂).serves
        (ih hsound₂ ((Nat.dvd_add_left dvd_rfl).2 hal) (by omega) hs₂.ledger)

lemma mmPrefault_serves (addr len : ℕ) (write : Bool) (hs : Sound mm)
    (h : SpaceLedger tabs refs m mm.pml4) :
    Serves tabs refs m mm (mmPrefault m mm addr len write) := by
  rw [mmPrefault]
  simp only
  split
  · exact .same h true
  split
  · exact .same h false
  rename_i hok
  obtain ⟨hdvd, hinside⟩ := prefault_inside hok
  exact prefaultPages_serves write hs hdvd hinside h

end Fault

section Load

variable {tabs refs : ℕ → ℕ} {m : Machine} {mm : Mm}

lemma loadSegment_serves (g : Segment) (hs : Sound mm) (h : SpaceLedger tabs refs m mm.pml4) :
    Serves tabs refs m mm (loadSegment m mm g) := by
  rw [loadSegment]
  simp only
  split
  · exact .same h false
  obtain ⟨addr, m₁, mm₁, hm, hs₁⟩ := mmMap_serves (alignDown g.vaddr pageSize)
    (alignUp g.stop pageSize - alignDown g.vaddr pageSize) g.prot vmaElf h
  rw [hm]
  simp only
  split
  · exact hs₁.ok false
  split
  · exact hs₁.ok true
  · exact hs₁.serves (mmPrefault_serves _ _ false (mmMap_sound hs hm) hs₁.ledger)

lemma elfLoad_serves (segments : List Segment) (hs : Sound mm) (h : SpaceLedger tabs refs m mm.pml4) :
    Serves tabs refs m mm (elfLoad segments m mm) := by
  induction segments generalizing m mm with
  | nil => exact .same h true
  | cons g rest ih =>
    obtain ⟨ok, m₁, mm₁, hg, hs₁⟩ := loadSegment_serves g hs h
    rw [elfLoad, hg]
    cases ok with
    | false => exact hs₁.ok false
    | true => exact hs₁.serves (ih (loadSegment_sound hs hg) hs₁.ledger)

lemma mapHeapAndStack_serves (hs : Sound mm) (h : SpaceLedger tabs refs m mm.pml4) :
    Serves tabs refs m mm (mapHeapAndStack m mm) := by
  obtain ⟨addr, m₁, mm₁, hm, hs₁⟩ :=
    mmMap_serves mm.brkStart pageSize (protRead ||| protWrite) (vmaHeap ||| vmaAnon) h
  have hsound₁ := mmMap_sound hs hm
  rw [mapHeapAndStack, hm]
  simp only
  split
  · exact hs₁.ok false
  obtain ⟨addr, m₂, mm₂, hm₂, hs₂⟩ := mmMap_serves (userStackTop - initialStack) initialStack
    (protRead ||| protWrite) (vmaStack ||| vmaAnon) hs₁.ledger
  rw [hm₂]
  simp only
  split
  · exact (hs₁.trans hs₂).ok false
  · exact (hs₁.trans hs₂).serves (mmPrefault_serves _ _ false (mmMap_sound hsound₁ hm₂) hs₂.ledger)

lemma loadImage_runs (segments : List Segment) (entry : ℕ) (h : FrameLedger False m.pmm m.kernel tabs refs) :
    (∃ m', loadImage m segments entry = .ok (none, m') ∧ Kept tabs refs m m') ∨
      ∃ mm' m', loadImage m segments entry = .ok (some mm', m') ∧ Served 0 0 tabs refs m m' blank mm' := by
  rw [loadImage]
  rcases mmCreate_runs h with ⟨m₁, hc, hk⟩ | ⟨p, m₁, hc, hs₁⟩
  · rw [hc]
    exact .inl ⟨m₁, rfl, hk⟩
  have hsound := mmCreate_empty_sound hc
  obtain ⟨ok, m₂, mm₂, hl, hs₂⟩ := elfLoad_serves segments hsound hs₁.ledger
  have hsound₂ := elfLoad_sound hsound hl
  have hs₂ := hs₁.trans hs₂
  rw [hc]
  simp only [hl]
  generalize hbrk : alignUp ((segments.map Segment.stop).foldl max userSpaceStart) pageSize = brk
  -- what could not be loaded completely is destroyed
  have hfail : ∀ {m₃ mm₃}, Served 0 0 tabs refs m m₃ blank mm₃ →
      ∃ m', mmDestroy m₃ mm₃ = .ok m' ∧ Kept tabs refs m m' := by
    intro m₃ mm₃ hs
    obtain ⟨m', hd, hk⟩ := mmDestroy_kept hs.ledger hs.active
    exact ⟨m', hd, hk.ledger, hs.bytes.trans hk.bytes fun _ hf => hf⟩
  have hsame : Served 0 0 tabs refs m₂ m₂ mm₂ { mm₂ with brkStart := brk, brk := brk } :=
    Released.unchanged ((Kept.refl hs₂.ledger).released rfl rfl rfl) fun _ _ => rfl
  have hsound₃ : Sound { mm₂ with brkStart := brk, brk := brk } := hsound₂.congr rfl fun _ _ hg => hg
  obtain ⟨ok', m₃, mm₃, hm, hs₃⟩ := mapHeapAndStack_serves hsound₃ hsame.ledger
  have hs₃ := hs₂.trans (hsame.trans hs₃)
  split_ifs
  · rw [hm]
    cases ok' with
    | true => exact .inr ⟨mm₃, m₃, rfl, hs₃⟩
    | false =>
      obtain ⟨m', hd, hk⟩ := hfail hs₃
      exact .inl ⟨m', by simp only [hd], hk⟩
  · obtain ⟨m', hd, hk⟩ := hfail hs₂
    exact .inl ⟨m', by simp only [hd], hk⟩

end Load

end MyOS.Memory
