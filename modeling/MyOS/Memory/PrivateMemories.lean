import MyOS.Memory.WorldLedger

/-! From boot on every page has one use, and every address space a memory of its own. -/

namespace MyOS.Memory

open Library Library.Dyadic Function

/-- The range that a call sets to zero; it may be empty. -/
def MmCall.cut (mm : Mm) : MmCall → ℕ × ℕ
  | .unmap addr len => (addr, unmapEnd addr len)
  | .sbrk inc => sbrkCut mm inc
  | _ => (0, 0)

lemma MmCall.run_served {tabs refs : ℕ → ℕ} {m : Machine} {mm : Mm} (c : MmCall) (hs : Sound mm)
    (h : SpaceLedger tabs refs m mm.pml4) :
    ∃ m' mm', c.run m mm = .ok (m', mm') ∧ Served (c.cut mm).1 (c.cut mm).2 tabs refs m m' mm mm' := by
  have hserves : ∀ {α : Type} {r : Except Panic (α × Machine × Mm)}, Serves tabs refs m mm r →
      ∃ m' mm', r.map Prod.snd = .ok (m', mm') ∧ Served 0 0 tabs refs m m' mm mm' := by
    rintro α r ⟨a, m', mm', rfl, hv⟩
    exact ⟨m', mm', rfl, hv⟩
  cases c with
  | map addr len prot flags => exact hserves (mmMap_serves addr len prot flags h)
  | unmap addr len =>
    obtain ⟨ok, m', mm', hr, hv⟩ := mmUnmap_runs addr len hs h
    exact ⟨m', mm', congrArg (Except.map Prod.snd) hr, hv⟩
  | sbrk inc =>
    obtain ⟨r, m', mm', hr, hv⟩ := mmSbrk_runs inc hs h
    exact ⟨m', mm', congrArg (Except.map Prod.snd) hr, hv⟩
  | handleFault addr err => exact hserves (mmHandleFault_serves addr err hs h)
  | prefault addr len write => exact hserves (mmPrefault_serves addr len write hs h)

/-- What an action does to the memories of the programs: a call clears what it cuts off, and a fork copies
a whole memory or fails. The bytes that `load` reads from the file are left out. -/
def Private (w w' : World) : Action → Prop
  | .load i segments _ _ => ∀ j va, (j = i → ∀ g ∈ segments, ¬ (g.vaddr ≤ va ∧ va < g.vaddr + g.filesz)) →
      w'.byte j va = w.byte j va
  | .call i c _ => w'.byte = update w.byte i fun va =>
      if (c.cut (w.mm i)).1 ≤ va ∧ va < (c.cut (w.mm i)).2 then 0 else w.byte i va
  | .fork i j _ => w'.live = j :: w.live ∧ w'.byte = update w.byte j (w.byte i) ∨
      w'.live = w.live ∧ w'.byte = w.byte
  | .destroy i _ => w'.byte = update w.byte i fun _ => 0
  | .write i va v => w'.byte = update w.byte i (update (w.byte i) va v)
  | _ => w'.byte = w.byte

section Step

variable {w w' : World} {i : ℕ} {a : Action}

lemma World.Good.space (h : w.Good) (hi : i ∈ w.live) (events : List CacheEvent) :
    SpaceLedger (w.others i (tableCount 4)) (w.others i (frameCount 4)) (w.before events) (w.mm i).pml4 := by
  rw [SpaceLedger, TreeLedger, ← World.total_eq hi, ← World.total_eq hi]
  exact h.ledger

lemma update_same {mem : ℕ → ℕ → UInt8} :
    (update mem i fun va => if 0 ≤ va ∧ va < 0 then 0 else mem i va) = mem := by
  simp

lemma Step.private (hst : Step w a w') (h : w.Good) (hs : ∀ i ∈ w.live, Sound (w.mm i)) :
    w'.Good ∧ Private w w' a := by
  have hnew : ∀ {i m mm} {e : List CacheEvent}, i ∉ w.live → Served 0 0 w.tables w.mappings (w.before e) m blank mm →
      (w.add i m mm).Good ∧ (w.add i m mm).byte = w.byte := by
    intro i m mm e hi hv
    have hrest : w.live.erase i = w.live := List.erase_of_not_mem hi
    have hv : Served 0 0 (w.others i (tableCount 4)) (w.others i (frameCount 4)) (w.before e) m blank mm := by
      rwa [World.others, World.others, hrest]
    have hg := h.served List.mem_cons_self (List.nodup_cons.2 ⟨hi, h.nodup⟩)
      (by rw [List.erase_cons_head, hrest]) hv rfl (by rw [World.own, if_neg hi]) (hv.coherent fun _ _ _ hs => by cases hs)
    rwa [update_same] at hg
  have hswitch : ∀ {i mm}, i ∈ w.live → mm.pml4 = (w.mm i).pml4 → mm.Coherent →
      (w.put i w.machine mm).Good ∧ (w.put i w.machine mm).byte = w.byte := by
    intro i mm hi ht hc
    have hsp : SpaceLedger _ _ w.machine mm.pml4 := ht ▸ h.space hi w.machine.caches
    have hg := h.served hi h.nodup rfl ((Released.refl hsp).unchanged fun _ _ => rfl) rfl
      (ht.trans (congrArg Mm.pml4 (World.own_eq hi).symm)) hc
    rwa [update_same] at hg
  have hled : ∀ e, FrameLedger False (w.before e).pmm (w.before e).kernel w.tables w.mappings := fun _ => h.ledger
  cases hst with
  | create hi hc =>
    rename_i e
    rcases mmCreate_runs (hled e) with ⟨m', hr, -⟩ | ⟨p, m', hr, hv⟩ <;> cases hc.symm.trans hr
    exact hnew hi hv
  | createFails hc =>
    rename_i e
    rcases mmCreate_runs (hled e) with ⟨m', hr, hk⟩ | ⟨p, m', hr, -⟩ <;> cases hc.symm.trans hr
    exact h.kept hk rfl
  | load hi hl =>
    rename_i e
    rcases loadImage_runs _ _ (hled e) with ⟨m', hr, -⟩ | ⟨mm', m', hr, hv⟩ <;> cases hl.symm.trans hr
    exact (hnew hi hv).imp_right fun hb j va _ => by rw [hb]
  | loadFails hl =>
    rename_i e
    rcases loadImage_runs _ _ (hled e) with ⟨m', hr, hk⟩ | ⟨mm', m', hr, -⟩ <;> cases hl.symm.trans hr
    exact (h.kept hk rfl).imp_right fun hb j va _ => by rw [hb]
  | call hi hc =>
    rename_i i c events
    obtain ⟨m', mm', hr, hv⟩ := c.run_served (hs i hi) (h.space hi events)
    cases hc.symm.trans hr
    have hown := World.own_eq hi
    exact h.served hi h.nodup rfl hv rfl (by rw [hown]) (hv.coherent (hown ▸ h.coherent i))
  | fork hi hj hf =>
    rename_i e
    rcases mmFork_runs (h.space hi e) with ⟨m', parent, hr, -⟩ | ⟨m', parent, child, hr, hv⟩ <;> cases hf.symm.trans hr
    exact (h.fork hi hj hv rfl).imp_right fun hb => .inl ⟨rfl, hb⟩
  | forkFails hi hf =>
    rename_i i j e
    rcases mmFork_runs (h.space hi e) with ⟨m', parent, hr, hv⟩ | ⟨m', parent, child, hr, -⟩ <;> cases hf.symm.trans hr
    have hown := World.own_eq hi
    have hg := h.served hi h.nodup rfl hv rfl (by rw [hown]) (hv.coherent (hown ▸ h.coherent i))
    rw [update_same] at hg
    exact hg.imp_right fun hb => .inr ⟨rfl, hb⟩
  | destroy hi hd =>
    rename_i e
    obtain ⟨m', hr, hk⟩ := mmDestroy_kept (h.space hi e) (mmDestroy_active hd)
    cases hd.symm.trans hr
    exact h.remove hk rfl
  | switchTo hi | switchFrom hi => exact hswitch hi rfl fun _ _ _ hs => by cases hs
  | fillTlb hi hact hva hg =>
    rename_i i va pte
    refine hswitch hi rfl fun wa q hu hq => ?_
    simp only [update_apply] at hq
    split at hq
    · rename_i hpage
      cases hq
      exact ⟨hact, by rw [Pml4.get, hpage]; exact hg⟩
    · have hc := h.coherent i
      rw [World.own_eq hi] at hc
      exact hc wa q hu hq
  | write hi ht hw => exact ⟨h.store _ _, h.byte_write _ hi ht hw⟩
  | kernelAlloc ha =>
    obtain ⟨hl, -, -, -, hmem⟩ := h.ledger.allocPages ha
    exact h.kept ⟨hl, hl.sameBytes hmem⟩ rfl
  | kernelAllocFails ha =>
    obtain rfl := h.ledger.allocPages_none ha
    exact ⟨h, rfl⟩
  | kernelFree hb hf =>
    obtain ⟨s, hr, hl, hm⟩ := h.ledger.freePages hb
    cases hf.symm.trans hr
    exact h.kept ⟨hl, .of_eq hm⟩ rfl
  | kernelWrite ha => exact ⟨h.store _ _, h.byte_kernelWrite _ ha⟩

end Step

section Boot

variable {q start stop : ℕ}

lemma freeRange_reserved (s : Pmm) (hq : q < start) :
    ((s.freeRange start stop).page q).reserved = (s.page q).reserved := by
  rw [Pmm.freeRange]
  induction stop - start generalizing s start with
  | zero => rfl
  | succ n ih =>
    rw [Pmm.freeRangeLoop]
    split
    · refine (ih _ (hq.trans_le (Nat.le_add_right _ _))).trans ?_
      rw [Pmm.freeRangeStep]
      generalize Pmm.fitOrder start (min stop (s.zone (pfnZone start)).endPfn) (maxOrder - 1) = order
      rw [Pmm.setZone_page, ((Pmm.buddyFree_frame _ start order).page q).1, Pmm.clearReserved_page]
      simp [hq.not_ge]
    · rfl

lemma BootMemory.reserved_zero (boot : BootMemory) : (boot.world.machine.pmm.page 0).reserved = true := by
  suffices h : ∀ rs : List Region, (∀ r ∈ rs, 2 ^ 20 ≤ r.base) → ∀ s : Pmm, (s.page 0).reserved = true →
      ((rs.foldl (fun s r => s.freeRange (r.base / pageSize) (r.stop / pageSize)) s).page 0).reserved = true from
    h _ boot.low _ rfl
  intro rs
  induction rs with
  | nil => exact fun _ s hs => hs
  | cons r rs ih =>
    intro hlow s hs
    refine ih (fun r' hr => hlow r' (List.mem_cons_of_mem _ hr)) _ ?_
    have hbase := hlow r List.mem_cons_self
    rwa [freeRange_reserved s (by simp only [pageSize]; omega)]

end Boot

section Reachable

variable {boot : BootMemory} {w w' : World} {i : ℕ} {a : Action}

lemma reachable_good (h : (addressSpaces boot).Reachable w) : w.Good ∧ ∀ i ∈ w.live, Sound (w.mm i) := by
  refine h.invariant (I := fun w => w.Good ∧ ∀ i ∈ w.live, Sound (w.mm i)) ?_ fun w a w' hw hs =>
    ⟨(hs.private hw.1 hw.2).1, hs.sound hw.2⟩
  rintro w rfl
  refine ⟨⟨List.nodup_nil, ⟨⟨[], [], Pmm.pmmInit_good boot.disjoint boot.inRam, fun _ => rfl, fun f => ?_⟩, ?_, False.elim,
    boot.reserved_zero⟩, fun _ _ _ _ hs => (by cases hs), fun _ va _ pte hg => ?_⟩, fun i hi => by cases hi⟩
  · exact iff_of_false List.not_mem_nil (Nat.lt_irrefl 0)
  · exact fun f hf => absurd hf (Nat.lt_irrefl 0)
  · cases hg.symm.trans lookup_emptyTable

lemma coverage_pages (l : List ℕ) (q : ℕ) : coverage (l.map pageBlock) q = l.count q := by
  rw [coverage, List.countP_map, List.count]
  refine List.countP_congr fun f _ => ?_
  simp only [Function.comp, pageBlock, Block.Contains, pow_zero, decide_eq_true_eq, beq_iff_eq]
  omega

/-- Every page of memory is free, of the kernel, a page table or mapped, and only one of these; the
reference count of a mapped page is the number of its entries. -/
structure Accounted (w : World) : Prop where
  once : ∀ q, coverage w.machine.pmm.freeBlocks q + coverage w.machine.kernel q + w.tables q +
    min 1 (w.mappings q) = if w.machine.pmm.Managed q then 1 else 0
  refcount : ∀ q, 0 < w.mappings q → (w.machine.pmm.page q).refcount = w.mappings q

theorem reachable_accounted (h : (addressSpaces boot).Reachable w) : Accounted w := by
  obtain ⟨⟨-, ⟨⟨ts, fs, hgood, hts, hfs⟩, href, -, -⟩, -, -⟩, -⟩ := reachable_good h
  refine ⟨fun q => ?_, href⟩
  have hcover := hgood.inv.cover q
  rw [coverage_append, coverage_pages, List.count_append, hts] at hcover
  have hle : (if w.machine.pmm.Managed q then 1 else 0) ≤ 1 := by split <;> decide
  have hcount : 0 < fs.count q ↔ 0 < w.mappings q := List.count_pos_iff.trans (hfs q)
  omega

/-- A page that a program may write has no other use, and what the CPU reads is the program's own. -/
structure Isolated (w : World) : Prop where
  alone : ∀ i ∈ w.live, ∀ j ∈ w.live, ∀ va wa pte q, (w.mm i).Maps va pte → pte.writable = true →
    (w.mm j).Maps wa q → q.frame = pte.frame → j = i ∧ wa / pageSize = va / pageSize
  reads : ∀ i ∈ w.live, ∀ va pte, (w.mm i).Translates va pte →
    w.machine.pmm.mem (pte.target va) = w.byte i va

theorem reachable_isolated (h : (addressSpaces boot).Reachable w) : Isolated w := by
  have hg := (reachable_good h).1
  refine ⟨fun i hi j hj va wa pte q hva hw hwa he => ?_, fun i hi va pte hva => ?_⟩
  · obtain ⟨hlt, hget⟩ := hg.maps hi hva
    obtain ⟨hlt', hget'⟩ := hg.maps hj hwa
    exact hg.alone hlt hlt' hget hw hget' he
  · obtain ⟨hlt, hget⟩ := hg.translates hi hva
    rw [World.byte, if_pos hlt, Mm.byte, hget, Option.elim_some]

theorem reachable_private (h : (addressSpaces boot).Reachable w) (hs : Step w a w') :
    Private w w' a :=
  (hs.private (reachable_good h).1 (reachable_good h).2).2

def Action.Concerns (i : ℕ) : Action → Prop
  | .load j _ _ _ | .call j _ _ | .fork _ j _ | .destroy j _ | .write j _ _ => j = i
  | _ => False

lemma Private.same (h : Private w w' a) (ha : ¬ a.Concerns i) : w'.byte i = w.byte i := by
  cases a with
  | load j _ _ _ => exact funext fun va => h i va fun hi => absurd hi.symm ha
  | fork _ j _ =>
    rcases h with ⟨-, h⟩ | ⟨-, h⟩
    · exact (congrFun h i).trans (update_of_ne (Ne.symm ha) ..)
    · exact congrFun h i
  | call j _ _ | destroy j _ | write j _ _ => exact (congrFun h i).trans (update_of_ne (Ne.symm ha) ..)
  | _ => exact congrFun h i

theorem reachable_undisturbed (h : (addressSpaces boot).Reachable w)
    (hr : Relation.ReflTransGen (fun w w' => ∃ a : Action, ¬ a.Concerns i ∧ Step w a w') w w') :
    w'.byte i = w.byte i := by
  have hrun : (addressSpaces boot).Reachable w' ∧ w'.byte i = w.byte i := by
    induction hr with
    | refl => exact ⟨h, rfl⟩
    | tail _ hs ih =>
      obtain ⟨a, ha, hs⟩ := hs
      have hgood := reachable_good ih.1
      exact ⟨.step a ih.1 hs, ((hs.private hgood.1 hgood.2).2.same ha).trans ih.2⟩
  exact hrun.2

theorem reachable_returns (h : (addressSpaces boot).Reachable w) (e : List CacheEvent) :
    (∃ r, mmCreate (w.before e) = .ok r) ∧
    (∀ segments entry, ∃ r, loadImage (w.before e) segments entry = .ok r) ∧
    (∀ b ∈ w.machine.kernel, ∃ s, w.machine.pmm.freePages b.base b.order = .ok s) ∧
    ∀ i ∈ w.live, (∀ c : MmCall, ∃ r, c.run (w.before e) (w.mm i) = .ok r) ∧
      (∃ r, mmFork (w.before e) (w.mm i) = .ok r) ∧
      ((w.mm i).active = false → ∃ m, mmDestroy (w.before e) (w.mm i) = .ok m) := by
  obtain ⟨hg, hs⟩ := reachable_good h
  have hl : FrameLedger False (w.before e).pmm (w.before e).kernel w.tables w.mappings := hg.ledger
  refine ⟨?_, fun segments entry => ?_, fun b hb => ?_, fun i hi => ⟨fun c => ?_, ?_, fun ha => ?_⟩⟩
  · rcases mmCreate_runs hl with ⟨m, hr, -⟩ | ⟨p, m, hr, -⟩
    · exact ⟨_, hr⟩
    · exact ⟨_, hr⟩
  · rcases loadImage_runs segments entry hl with ⟨m, hr, -⟩ | ⟨mm, m, hr, -⟩
    · exact ⟨_, hr⟩
    · exact ⟨_, hr⟩
  · obtain ⟨s, hr, -⟩ := hg.ledger.freePages hb
    exact ⟨s, hr⟩
  · obtain ⟨m, mm, hr, -⟩ := c.run_served (hs i hi) (hg.space hi e)
    exact ⟨_, hr⟩
  · rcases mmFork_runs (hg.space hi e) with ⟨m, parent, hr, -⟩ | ⟨m, parent, child, hr, -⟩
    · exact ⟨_, hr⟩
    · exact ⟨_, hr⟩
  · obtain ⟨m, hr, -⟩ := mmDestroy_kept (hg.space hi e) ha
    exact ⟨m, hr⟩

def smallLoad : Action := .load 0 [⟨0x400000, 0x1000, 0x800, protRead ||| protExec⟩] 0x400000 []

lemma smallBoot_load : ∃ w : World, w.live = [0] ∧ Step smallBoot.world smallLoad w := by
  obtain ⟨m, mm, hl⟩ := smallBoot_image
  exact ⟨_, rfl, .load List.not_mem_nil hl⟩

theorem reachable_accounted_load : ∃ w : World, w.live = [0] ∧ Accounted w := by
  obtain ⟨w, hl, hs⟩ := smallBoot_load
  exact ⟨w, hl, reachable_accounted (.step _ (.init rfl) hs)⟩

theorem reachable_returns_load : ∃ w : World, w.live = [0] ∧
    ∀ i ∈ w.live, ∃ r, mmFork (w.before []) (w.mm i) = .ok r := by
  obtain ⟨w, hl, hs⟩ := smallBoot_load
  obtain ⟨-, -, -, hcalls⟩ := reachable_returns (.step _ (.init rfl) hs) []
  exact ⟨w, hl, fun i hi => (hcalls i hi).2.1⟩

end Reachable

section Runs

variable {w w' : World} {a : Action}

/-- The actions of the runs below, where they succeed. -/
def World.next (w : World) : Action → Option World
  | .load i segments entry events =>
    match loadImage (w.before events) segments entry with
    | .ok (some mm, m) => if i ∉ w.live then some (w.add i m mm) else none
    | _ => none
  | .call i c events =>
    match c.run (w.before events) (w.mm i) with
    | .ok (m, mm) => if i ∈ w.live then some (w.put i m mm) else none
    | _ => none
  | .fork i j events =>
    match mmFork (w.before events) (w.mm i) with
    | .ok (m, parent, some child) =>
      if i ∈ w.live ∧ j ∉ w.live then some ((w.put i m parent).add j m child) else none
    | _ => none
  | .switchTo i =>
    if i ∈ w.live then some (w.put i w.machine { w.mm i with active := true, tlb := fun _ => none }) else none
  | .write i va v =>
    match (w.mm i).pml4.get va with
    | some pte =>
      if i ∈ w.live ∧ (w.mm i).active = true ∧ isUserAddress va = true ∧ pte.writable = true then
        some (w.store (pte.target va) v)
      else none
    | none => none
  | _ => none

lemma World.next_step (h : w.next a = some w') : Step w a w' := by
  cases a with
  | load i segments entry events =>
    rw [next] at h
    split at h
    · split at h
      · rename_i hl hi
        cases h
        exact .load hi hl
      · cases h
    · cases h
  | call i c events =>
    rw [next] at h
    split at h
    · split at h
      · rename_i hc hi
        cases h
        exact .call hi hc
      · cases h
    · cases h
  | fork i j events =>
    rw [next] at h
    split at h
    · split at h
      · rename_i hf hij
        cases h
        exact .fork hij.1 hij.2 hf
      · cases h
    · cases h
  | switchTo i =>
    rw [next] at h
    split at h
    · rename_i hi
      cases h
      exact .switchTo hi
    · cases h
  | write i va v =>
    rw [next] at h
    split at h
    · split at h
      · rename_i hg hw
        obtain ⟨hi, hact, hu, hw⟩ := hw
        cases h
        exact .write hi ⟨hact, hu, .inr hg⟩ hw
      · cases h
    · cases h
  | _ => cases h

def runBoot : BootMemory where
  maxRam := 0x140000
  mem _ := 0
  regions := [⟨0x100000, 0x140000⟩]
  disjoint := List.pairwise_singleton _ _
  inRam := by decide
  low := by decide

def stored : List Action :=
  [.load 0 [⟨0x400000, 0x2000, 0x1800, protRead ||| protWrite ||| protExec⟩] 0x400000 [], .switchTo 0,
    .call 0 (.handleFault 0x401000 2) [], .write 0 0x401000 7]

def childStores : List Action := [.fork 0 1 [], .switchTo 1, .call 1 (.handleFault 0x401000 2) [], .write 1 0x401000 5]

def World.bytes (w : World) : List ℕ × UInt8 × UInt8 := (w.live, w.byte 0 0x401000, w.byte 1 0x401000)

lemma exists_run {β : Type} (as : List Action) (f : World → β) (b : β)
    (h : (as.foldlM World.next runBoot.world).map f = some b) :
    ∃ w, (addressSpaces runBoot).Reachable w ∧ f w = b := by
  obtain ⟨w, hw, hf⟩ := Option.map_eq_some_iff.1 h
  exact ⟨w, .foldlM World.next_step (.init rfl) hw, hf⟩

lemma reflTransGen_run {i : ℕ} {as : List Action} (ha : ∀ a ∈ as, ¬ a.Concerns i) (h : as.foldlM World.next w = some w') :
    Relation.ReflTransGen (fun w w' => ∃ a : Action, ¬ a.Concerns i ∧ Step w a w') w w' := by
  induction as generalizing w with
  | nil =>
    cases h
    exact .refl
  | cons a as ih =>
    obtain ⟨u, hu, h⟩ := Option.bind_eq_some_iff.1 (List.foldlM_cons.symm.trans h)
    exact .head ⟨a, ha a List.mem_cons_self, World.next_step hu⟩ (ih (fun b hb => ha b (List.mem_cons_of_mem _ hb)) h)

theorem reachable_isolated_forked : ∃ w pte q, w.live = [1, 0] ∧ (w.mm 1).active = false ∧
    (w.mm 0).Maps 0x401000 pte ∧ pte.writable = true ∧ (w.mm 1).Maps 0x401000 q ∧ Isolated w := by
  obtain ⟨w, h, hf⟩ := exists_run (stored ++ [.fork 0 1 [], .call 0 (.handleFault 0x401000 2) []])
    (fun w => (w.live, (w.mm 1).active, ((w.mm 0).pml4.get 0x401000).map Pte.writable,
      ((w.mm 1).pml4.get 0x401000).isSome)) ([1, 0], false, some true, true) (by decide +kernel)
  simp only [Prod.mk.injEq, Option.map_eq_some_iff, Option.isSome_iff_exists] at hf
  obtain ⟨hl, ha, ⟨pte, hg, hw⟩, q, hq⟩ := hf
  exact ⟨w, pte, q, hl, ha, .inl ⟨by decide, hg⟩, hw, .inl ⟨by decide, hq⟩, reachable_isolated h⟩

theorem reachable_private_unmap : ∃ w w', w.bytes = ([1, 0], 7, 5) ∧ w'.bytes = ([1, 0], 0, 5) ∧
    Private w w' (.call 0 (.unmap 0x401000 0x1000) []) := by
  obtain ⟨w, h, hf⟩ := exists_run (stored ++ childStores)
    (fun w => (w.bytes, (w.next (.call 0 (.unmap 0x401000 0x1000) [])).map World.bytes))
    (([1, 0], 7, 5), some ([1, 0], 0, 5)) (by decide +kernel)
  obtain ⟨w', hn, hw'⟩ := Option.map_eq_some_iff.1 (congrArg Prod.snd hf)
  exact ⟨w, w', congrArg Prod.fst hf, hw', reachable_private h (World.next_step hn)⟩

theorem reachable_undisturbed_childStores : ∃ w w' : World, w.live = [0] ∧ w.byte 0 0x401000 = 7 ∧
    w'.bytes = ([1, 0], 7, 5) ∧ w'.byte 0 = w.byte 0 := by
  obtain ⟨w, h, hf⟩ := exists_run stored
    (fun w => (w.live, w.byte 0 0x401000, (childStores.foldlM World.next w).map World.bytes))
    ([0], 7, some ([1, 0], 7, 5)) (by decide +kernel)
  obtain ⟨hl, hb, hn⟩ := by simpa only [Prod.mk.injEq] using hf
  obtain ⟨w', hn, hw'⟩ := Option.map_eq_some_iff.1 hn
  exact ⟨w, w', hl, hb, hw', reachable_undisturbed h (reflTransGen_run (by simp [childStores, Action.Concerns]) hn)⟩

end Runs

end MyOS.Memory
