import MyOS.Memory.SlabSpec

/-! `kmem_cache_alloc` and `kmem_cache_free` keep the invariant, and no check of theirs fires. -/

namespace MyOS.Memory.Pmm

open Library Library.Dyadic Library.Bytes Library.Sums Function

structure Ready (id : ℕ) (s : Pmm) (c : KmemCache) (others : List Block) (free : ℕ → List ℕ) :
    Prop where
  inv : CacheInv id s c others free
  sorted : Sorted c free none

lemma Ready.foreign {id : ℕ} {s t : Pmm} {c : KmemCache} {others others' : List Block} {free : ℕ → List ℕ}
    (h : Ready id s c others free) (hgood : Good t (c.blocks ++ others')) (hmax : t.maxPfn = s.maxPfn)
    (ha : ∀ p ∈ c.slabs, Agree s t p c.order) : Ready id t c others' free := by
  refine ⟨⟨h.inv.shape, hmax ▸ h.inv.ram, hgood, fun p hp => (h.inv.slab p hp).congr h.inv.shape (ha p hp),
    h.inv.oneEmpty, h.inv.nrSlabs, ?_⟩, h.sorted⟩
  rw [h.inv.active]
  refine sum_map_congr fun p hp => ?_
  rw [(ha p hp).page p le_rfl (Nat.lt_add_of_pos_right (Nat.two_pow_pos _))]

structure Picked (id : ℕ) (s t : Pmm) (c c' : KmemCache) (others : List Block)
    (free free' : ℕ → List ℕ) (p : ℕ) : Prop where
  inv : CacheInv id t c' others free'
  beside : Beside s t c.blocks c'.blocks others
  sorted : Sorted c' free' (some p)
  mem : p ∈ c'.partialSlabs
  nonempty : free' p ≠ []
  shape : c'.shape = c.shape
  size : c'.size = c.size
  live : ∀ a, Live c' free' a ↔ Live c free a

section Alloc

variable {id : ℕ} {s t : Pmm} {c c' : KmemCache} {others : List Block} {free : ℕ → List ℕ}
  {p i : ℕ} {is : List ℕ}

lemma setPages_page (n q : ℕ) (f : Page → Page) :
    (s.setPages p n f).page q = if p ≤ q ∧ q < p + n then f (s.page q) else s.page q := rfl

lemma setPages_harmless (n : ℕ) (f : Page → Page)
    (hf : ∀ g, (f g).reserved = g.reserved ∧ (f g).buddy = g.buddy ∧ (f g).order = g.order) :
    Harmless s (s.setPages p n f) := by
  refine ⟨rfl, fun _ _ => rfl, fun _ _ => rfl, fun _ => ⟨rfl, rfl⟩, fun q => ?_, fun q => ?_,
    fun q _ => ?_⟩
  all_goals
    rw [setPages_page]
    split
    · simp only [hf]
    · rfl

lemma newSlab_eq {t : Pmm} (ha : s.allocPages c.order {} = (some p, t)) :
    newSlab id s c =
      (some p, (carve c (pageToVirt p) c.objsPerSlab (t.claimPages id p c.order) 0).1.setPage p
        (fun g => { g with
          freelist := (carve c (pageToVirt p) c.objsPerSlab (t.claimPages id p c.order) 0).2,
          inuse := 0 }), { c with nrSlabs := c.nrSlabs + 1 }) := by
  rw [newSlab, ha]

lemma range_used (w : Shape) : ∀ i < w.objs, i ∉ List.range w.objs → UsedObject t w (w.phys p i) :=
  fun _ hi hn => absurd (List.mem_range.2 hi) hn

lemma newSlab_built (id : ℕ) (hw : c.shape.Sound) (hf : c.shape.Fits p) {u : Pmm}
    (hu : u = (carve c (pageToVirt p) c.objsPerSlab (t.claimPages id p c.order) 0).1.setPage p
      (fun g => { g with
        freelist := (carve c (pageToVirt p) c.objsPerSlab (t.claimPages id p c.order) 0).2,
        inuse := 0 })) :
    Within t u c.shape p ∧ SlabInv id u c.shape p (List.range c.objsPerSlab) ∧
      (u.page p).inuse = 0 := by
  have hnil : Chain (t.claimPages id p c.order) c.shape p 0 [] := rfl
  have hc := carve_spec hw hf le_rfl (by simp) hnil (by simp)
  rw [List.append_nil] at hc
  generalize carve c (pageToVirt p) c.objsPerSlab (t.claimPages id p c.order) 0 = r at hc hu
  have hpos := Nat.two_pow_pos c.order
  have ho : c.shape.order = c.order := rfl
  have hpage : ∀ q, u.page q = if q = p then { t.page p with
      slab := true, cache := some id, slabHead := some p, freelist := r.2, inuse := 0 }
      else (t.claimPages id p c.order).page q := by
    intro q
    rw [hu, setPage_page, hc.page]
    by_cases hq : q = p
    · subst hq
      simp [claimPages, setPages_page, hpos]
    · simp [hq]
  have hmem : u.mem = r.1.mem := by rw [hu, setPage_mem]
  refine ⟨⟨?_, fun z => ?_, fun q => ?_, fun q hq => ?_, fun x hx => ?_⟩,
    ⟨fun q h₁ h₂ => ?_, ?_, List.nodup_range, fun i hi => List.mem_range.1 hi, ?_, fun i hi => ?_,
      range_used c.shape⟩, ?_⟩
  · have h₁ : Harmless t (t.claimPages id p c.order) :=
      setPages_harmless _ _ fun _ => ⟨rfl, rfl, rfl⟩
    have h₂ : Harmless (t.claimPages id p c.order) r.1 := harmless_of_eq hc.page hc.zone hc.maxPfn
    have h₃ : Harmless r.1 u := hu ▸ setPage_harmless _ (fun _ => ⟨rfl, rfl⟩) fun _ => rfl
    exact (h₁.trans h₂).trans h₃
  · rw [hu, setPage_zone, hc.zone]
    rfl
  · rw [hpage]
    split
    · rename_i hq
      rw [hq]
    · rw [claimPages, setPages_page]
      split <;> rfl
  · rw [ho] at hq
    have hqp : q ≠ p := by omega
    rw [hpage, if_neg hqp, claimPages, setPages_page, if_neg hq]
  · rw [hmem, hc.mem x hx]
    rfl
  · rw [hpage]
    split
    · exact ⟨rfl, rfl, rfl⟩
    · rw [claimPages, setPages_page, if_pos (show p ≤ q ∧ q < p + 2 ^ c.order from ⟨h₁, h₂⟩)]
      exact ⟨rfl, rfl, rfl⟩
  · rw [hpage, if_pos rfl, List.length_range]
    exact Nat.zero_add _
  · rw [hpage, if_pos rfl]
    exact hc.chain.congr hw fun _ _ x _ => by rw [hmem]
  · exact (hc.objects i hi).congr hw fun x _ => by rw [hmem]
  · rw [hpage, if_pos rfl]

lemma newSlab_spec (h : CacheInv id s c others free) :
    newSlab id s c = (none, s, c) ∨
      ∃ p t, newSlab id s c = (some p, t, { c with nrSlabs := c.nrSlabs + 1 }) ∧ p ∉ c.slabs ∧
        CacheInv id t ({ c with nrSlabs := c.nrSlabs + 1 }.addPartial p) others
          (update free p (List.range c.objsPerSlab)) ∧
        Beside s t c.blocks ({ c with nrSlabs := c.nrSlabs + 1 }.addPartial p).blocks others := by
  rcases allocPages_spec c.order {} h.good with ⟨p, t, ha, hal⟩ | ⟨ha, -⟩
  · have hnot : p ∉ c.slabs := fun hp => by
      have := hal.good.inv.held_nodup
      exact (List.nodup_cons.1 this).1 (List.mem_append_left _ (List.mem_map_of_mem hp))
    have hram : t.maxPfn * pageSize ≤ vmallocStart - hhdmBase := hal.maxPfn ▸ h.ram
    have hf : c.shape.Fits p :=
      (Nat.mul_le_mul_right _ (hal.good.inv.held_below List.mem_cons_self)).trans hram
    obtain ⟨hwi, hslab, hin⟩ := newSlab_built id h.shape hf rfl
    refine .inr ⟨p, _, newSlab_eq ha, hnot, ?_⟩
    generalize (carve c (pageToVirt p) c.objsPerSlab (t.claimPages id p c.order) 0).1.setPage p
        _ = u at hwi hslab hin
    have hold : ∀ b ∈ c.blocks ++ others, Agree s u b.base b.order := by
      intro b hb
      have hfar : ∀ r, b.Contains r → ¬ (Block.mk p c.order).Contains r := fun r hr hc =>
        (List.pairwise_cons.1 hal.good.inv.held_apart).1 _ hb r ⟨hc, hr⟩
      exact (hal.agree hb).trans (hwi.agree hfar)
    have hslabs : ∀ q ∈ c.slabs, Agree s u q c.order := fun q hq =>
      hold ⟨q, c.order⟩ (List.mem_append_left _ (List.mem_map_of_mem hq))
    refine ⟨⟨h.shape, hwi.harmless.maxPfn ▸ hram,
      hal.good.of_harmless hwi.harmless hwi.freePages hwi.order, fun q hq => ?_, h.oneEmpty, ?_, ?_⟩,
      hwi.harmless.maxPfn.trans hal.maxPfn, fun b hb => hold b (List.mem_append_right _ hb), fun q hq hc => ?_⟩
    · rcases List.mem_cons.1 hq with rfl | hq
      · rw [update_self]
        exact hslab
      · have hqp : q ≠ p := fun he => hnot (he ▸ hq)
        rw [update_of_ne hqp]
        exact (h.slab q hq).congr h.shape (hslabs q hq)
    · exact congrArg (· + 1) h.nrSlabs
    · change c.activeObjs = ((p :: c.slabs).map fun q => (u.page q).inuse).sum
      rw [List.map_cons, List.sum_cons, hin, Nat.zero_add, h.active]
      refine (sum_map_congr fun q hq => ?_)
      rw [(hslabs q hq).page q le_rfl (Nat.lt_add_of_pos_right (Nat.two_pow_pos _))]
    · change coverage (⟨p, c.order⟩ :: c.blocks) q = 0 at hc
      rw [coverage_cons] at hc
      have hfar : ¬ (Block.mk p c.order).Contains q := fun hpq => by
        rw [if_pos hpq] at hc
        omega
      rw [hwi.page q hfar, (allocPages_flags ha).2] at hq
      exact ⟨hq, by omega⟩
  · left
    rw [newSlab, ha]

lemma pickSlab_spec (h : Ready id s c others free) :
    pickSlab id s c = (none, s, c) ∨
      ∃ p t c' free', pickSlab id s c = (some p, t, c') ∧ Picked id s t c c' others free free' p := by
  have hn := h.inv.nodup
  rw [pickSlab]
  cases hpart : c.partialSlabs with
  | cons p ps =>
    have hp : p ∈ c.partialSlabs := hpart ▸ List.mem_cons_self
    refine .inr ⟨p, s, c, free, rfl, h.inv, .refl s _ _, ?_, hp, (h.sorted.partialSlabs p hp nofun).1, rfl,
      rfl, fun _ => Iff.rfl⟩
    have := h.sorted.update p (free p) (.inl rfl)
    rwa [update_eq_self] at this
  | nil =>
    cases hemp : c.emptySlabs with
    | cons p ps =>
      have hp : p ∈ c.emptySlabs := hemp ▸ List.mem_cons_self
      have hps : p ∈ c.slabs := KmemCache.mem_slabs.2 (.inr (.inr hp))
      have hlen := h.sorted.emptySlabs p hp nofun
      have hsort : Sorted c free (some p) := by
        have := h.sorted.update p (free p) (.inl rfl)
        rwa [update_eq_self] at this
      have hinv : CacheInv id s ((c.listDel p).addPartial p) others free :=
        h.inv.moveTo hps (List.Perm.refl _) rfl rfl rfl h.inv.listDel_empty
      have hperm : ((c.listDel p).addPartial p).slabs.Perm c.slabs := by
        rw [KmemCache.addPartial_slabs, KmemCache.listDel_slabs hn]
        exact KmemCache.erase_perm hps
      refine .inr ⟨p, s, _, free, rfl, hinv, (Beside.refl s _ _).perm (blocks_perm hperm rfl),
        (hsort.listDel hn).addPartial_hole, List.mem_cons_self, fun he => ?_, rfl, rfl, fun a => ?_⟩
      · have := h.inv.shape.objs
        rw [he] at hlen
        exact this.ne hlen
      · exact exists_congr fun q => and_congr_left fun _ => hperm.mem_iff
    | nil =>
      rcases newSlab_spec h.inv with hnone | ⟨p, t, hsome, hnot, hinv, hbeside⟩
      · left
        simp only [hnone]
      · refine .inr ⟨p, t, _, _, by simp only [hsome], hinv, hbeside, ?_, List.mem_cons_self, ?_,
          rfl, rfl, fun a => ?_⟩
        · have hup := h.sorted.update p (List.range c.objsPerSlab) (.inl rfl)
          refine ⟨fun q hq hpq => ?_, hup.fullSlabs, hup.emptySlabs⟩
          rcases List.mem_cons.1 hq with rfl | hq
          · exact absurd rfl hpq
          · exact hup.partialSlabs q hq hpq
        · rw [update_self]
          have := h.inv.shape.objs
          exact fun he => this.ne' (List.range_eq_nil.1 he)
        · -- the new slab has no object in use
          constructor
          · rintro ⟨q, hq, i, hi, hn, rfl⟩
            rcases List.mem_cons.1 hq with rfl | hq
            · rw [update_self] at hn
              exact absurd (List.mem_range.2 hi) hn
            · have hqp : q ≠ p := by
                rintro rfl
                exact hnot hq
              rw [update_of_ne hqp] at hn
              exact ⟨q, hq, i, hi, hn, rfl⟩
          · rintro ⟨q, hq, i, hi, hn, rfl⟩
            have hqp : q ≠ p := by
              rintro rfl
              exact hnot hq
            refine ⟨q, List.mem_cons_of_mem _ hq, i, hi, ?_, rfl⟩
            rwa [update_of_ne hqp]

lemma poisonIntact_of (hw : c.shape.Sound) (hf : c.shape.Fits p) (hi : i < c.objsPerSlab)
    (h : FreeObject s c.shape (c.shape.phys p i)) :
    s.poisonIntact c (c.shape.addr p i) = true := by
  simp only [poisonIntact, List.all_eq_true, List.mem_range, beq_iff_eq, body_eq hw,
    hw.virtToPhys hf hi]
  intro k hk
  rw [Nat.add_assoc]
  exact h.poison (16 + k) (by omega) (by change 16 + k < c.stride - redzone; omega)

lemma redzoneIntact_of (hw : c.shape.Sound) (hf : c.shape.Fits p) (hi : i < c.objsPerSlab)
    (h : Redzone s c.shape (c.shape.phys p i)) : s.redzoneIntact c (c.shape.addr p i) = true := by
  simp only [redzoneIntact, List.all_eq_true, List.mem_range, beq_iff_eq, hw.virtToPhys hf hi]
  exact h.bytes

lemma checkFreeObject_ok (hw : c.shape.Sound) (hf : c.shape.Fits p) (hi : i < c.objsPerSlab)
    (h : FreeObject s c.shape (c.shape.phys p i)) :
    s.checkFreeObject c (c.shape.addr p i) = .ok () := by
  rw [checkFreeObject, hw.virtToPhys hf hi, if_neg (not_not.2 h.mark),
    poisonIntact_of hw hf hi h, redzoneIntact_of hw hf hi h.redzone]
  rfl

def popped (s : Pmm) (w : Shape) (p i : ℕ) : Pmm :=
  (s.setPage p fun g => { g with
    freelist := s.load64 (w.phys p i), inuse := g.inuse + 1 }).store64 (w.phys p i + 8) 0

lemma popped_page (w : Shape) : (s.popped w p i).page = update s.page p { s.page p with
    freelist := s.load64 (w.phys p i), inuse := (s.page p).inuse + 1 } := by
  simp only [popped, store64_page, setPage_page]

lemma popped_zone (w : Shape) : (s.popped w p i).zone = s.zone := by
  simp only [popped, store64_zone, setPage_zone]

lemma popped_mem (hw : c.shape.Sound) (x : ℕ) (hx : ¬ c.shape.Covers p i x) :
    (s.popped c.shape p i).mem x = s.mem x := by
  have hst := hw.stride
  simp only [Shape.Covers, redzone, minObj] at *
  rw [popped, store64_mem, write_of_not_mem (by omega), setPage_mem]

lemma popped_touched (hw : c.shape.Sound) : Touched s (s.popped c.shape p i) c.shape p i where
  mem := popped_mem hw
  page q := by
    rw [popped_page]
    by_cases hq : q = p
    · subst hq; simp
    · simp [hq]
  others q hq := by rw [popped_page, update_of_ne hq]

lemma popped_within (hw : c.shape.Sound) (hi : i < c.objsPerSlab) :
    Within s (s.popped c.shape p i) c.shape p := by
  have hharm : Harmless s (s.setPage p fun g => { g with
      freelist := s.load64 (c.shape.phys p i), inuse := g.inuse + 1 }) :=
    setPage_harmless _ (fun _ => ⟨rfl, rfl⟩) fun _ => rfl
  refine ⟨hharm.trans (harmless_of_eq ?_ ?_ ?_), fun z => ?_, fun q => ?_, fun q hq => ?_,
    fun x hx => popped_mem hw x fun hx' => hx (hw.inside hi hx')⟩
  · rw [popped, store64_page]
  · rw [popped, store64_zone]
  · rw [popped, store64_maxPfn]
  · rw [popped_zone]
  · rw [popped_page]
    by_cases hq : q = p
    · subst hq; simp
    · simp [hq]
  · refine (popped_touched hw).others q fun he => hq ?_
    have := Nat.two_pow_pos c.shape.order
    omega

lemma popped_used (hw : c.shape.Sound) (h : FreeObject s c.shape (c.shape.phys p i)) :
    UsedObject (s.popped c.shape p i) c.shape (c.shape.phys p i) where
  mark := by
    rw [popped, load64, store64_mem, read_write_self (by norm_num)]
    decide
  redzone := ⟨fun k hk => by
    have hst := hw.stride
    rw [popped, store64_mem, write_of_not_mem (by simp only [redzone, minObj] at *; omega),
      setPage_mem]
    exact h.redzone.bytes k hk⟩

lemma takeObject_eq (hfl : (s.page p).freelist = c.shape.addr p i)
    (hphys : virtToPhys (c.shape.addr p i) = c.shape.phys p i)
    (hck : s.checkFreeObject c (c.shape.addr p i) = .ok ()) :
    takeObject s c p = .ok (c.shape.addr p i, s.popped c.shape p i,
      { (if ((s.popped c.shape p i).page p).inuse = c.objsPerSlab
          then (c.listDel p).addFull p else c) with
        activeObjs := c.activeObjs + 1, allocs := c.allocs + 1 }) := by
  have hpop : s.popObject p (c.shape.addr p i) = s.popped c.shape p i := by
    rw [popObject, hphys, popped]
  simp only [takeObject, hfl, hck, hpop]
  by_cases hfull : ((s.popped c.shape p i).page p).inuse = c.objsPerSlab
  · simp only [if_pos hfull]
    rfl
  · simp only [if_neg hfull]

lemma takeObject_spec (h : CacheInv id s c others free) (hso : Sorted c free (some p))
    (hp : p ∈ c.partialSlabs) (hfree : free p = i :: is) :
    ∃ c', takeObject s c p = .ok (c.shape.addr p i, s.popped c.shape p i, c') ∧
      Ready id (s.popped c.shape p i) c' others (update free p is) ∧
      c'.shape = c.shape ∧ c'.size = c.size ∧ c'.slabs.Perm c.slabs ∧
      Beside s (s.popped c.shape p i) c.blocks c'.blocks others := by
  have hps : p ∈ c.slabs := KmemCache.mem_slabs.2 (.inl hp)
  have hsl := h.slab p hps
  rw [hfree] at hsl
  have hw := h.shape
  have hi : i < c.objsPerSlab := hsl.bound i List.mem_cons_self
  have hf := h.fits hps
  have hphys := hw.virtToPhys hf hi
  have hobj := hsl.free i List.mem_cons_self
  generalize ht : s.popped c.shape p i = t
  have hin : (t.page p).inuse = (s.page p).inuse + 1 := by
    simp [← ht, popped_page]
  have hslt : SlabInv id t c.shape p is := by
    refine hsl.take hw (ht ▸ popped_touched hw) ?_ hin (ht ▸ popped_used hw hobj)
    simp [← ht, popped_page]
  have hwi : Within s t c.shape p := ht ▸ popped_within hw hi
  have hinv : CacheInv id t { c with activeObjs := c.activeObjs + 1, allocs := c.allocs + 1 } others
      (update free p is) := h.within hps hwi hslt (by omega)
  have hso' := hso.update p is (.inr rfl)
  have hnd : c.slabs.Nodup := hinv.nodup
  have hlen := hslt.inuse
  have hobjs : c.shape.objs = c.objsPerSlab := rfl
  have hup : update free p is p = is := update_self ..
  have hrun : takeObject s c p = .ok (c.shape.addr p i, t,
      { (if (t.page p).inuse = c.objsPerSlab then (c.listDel p).addFull p else c) with
        activeObjs := c.activeObjs + 1, allocs := c.allocs + 1 }) := by
    rw [takeObject_eq hsl.chain.1 hphys (checkFreeObject_ok hw hf hi hobj), ht]
  by_cases hfull : (t.page p).inuse = c.objsPerSlab
  · rw [if_pos hfull] at hrun
    have hnil : is = [] := List.length_eq_zero_iff.1 (by omega)
    have hperm : ((c.listDel p).addFull p).slabs.Perm (p :: (c.listDel p).slabs) :=
      KmemCache.addFull_slabs
    have hsort := (hso'.listDel hnd).addFull (hup.trans hnil)
    refine ⟨_, hrun, ⟨hinv.moveTo hps hperm rfl rfl rfl hinv.listDel_empty,
      ⟨hsort.partialSlabs, hsort.fullSlabs, hsort.emptySlabs⟩⟩, rfl, rfl, ?_⟩
    rw [KmemCache.listDel_slabs hnd] at hperm
    have hperm' := hperm.trans (KmemCache.erase_perm hps)
    exact ⟨hperm', (h.beside hps hwi).perm (blocks_perm hperm' rfl)⟩
  · rw [if_neg hfull] at hrun
    have hne : is ≠ [] := by
      rintro rfl
      rw [List.length_nil] at hlen
      omega
    have hsort := hso'.close hnd hp (by rwa [hup]) (by rw [hup]; omega)
    exact ⟨_, hrun, ⟨hinv, ⟨hsort.partialSlabs, hsort.fullSlabs, hsort.emptySlabs⟩⟩, rfl, rfl,
      List.Perm.refl _, h.beside hps hwi⟩

theorem kmemCacheAlloc_spec (h : Ready id s c others free) :
    kmemCacheAlloc id s c = .ok (none, s, c) ∨
      ∃ a t c' free', kmemCacheAlloc id s c = .ok (some a, t, c') ∧ Ready id t c' others free' ∧
        c'.shape = c.shape ∧ c'.size = c.size ∧ ¬ Live c free a ∧
        (∀ b, Live c' free' b ↔ b = a ∨ Live c free b) ∧ Beside s t c.blocks c'.blocks others := by
  rcases pickSlab_spec h with hnone | ⟨p, t, c₁, free₁, hsome, hpick⟩
  · left
    rw [kmemCacheAlloc, hnone]
  · obtain ⟨i, is, hfree⟩ := List.exists_cons_of_ne_nil hpick.nonempty
    obtain ⟨c', hrun, hready, hsh, hsz, hperm, hbeside⟩ :=
      takeObject_spec hpick.inv hpick.sorted hpick.mem hfree
    have hps : p ∈ c₁.slabs := KmemCache.mem_slabs.2 (.inl hpick.mem)
    have hsl := hpick.inv.slab p hps
    rw [hfree] at hsl
    have hi : i < c₁.objsPerSlab := hsl.bound i List.mem_cons_self
    have hobjs : c'.objsPerSlab = c₁.objsPerSlab := congrArg Shape.objs hsh
    refine .inr ⟨c₁.shape.addr p i, _, c', _, by rw [kmemCacheAlloc, hsome]; simp only [hrun], hready,
      hsh.trans hpick.shape, hsz.trans hpick.size, fun hl => ?_, fun b => ?_, hpick.beside.trans hbeside⟩
    · obtain ⟨q, hq, j, hj, hn, he⟩ := (hpick.live _).2 hl
      obtain ⟨rfl, rfl⟩ := hpick.inv.addr_inj hps hq hi hj he
      exact hn (hfree ▸ List.mem_cons_self)
    · rw [← hpick.live b]
      constructor
      · rintro ⟨q, hq, j, hj, hn, rfl⟩
        rw [hsh]
        rw [hobjs] at hj
        have hq₁ := hperm.mem_iff.1 hq
        by_cases hqp : q = p
        · subst hqp
          rw [update_self] at hn
          by_cases hji : j = i
          · exact .inl (hji ▸ rfl)
          · exact .inr ⟨q, hq₁, j, hj, by simp [hfree, hji, hn], rfl⟩
        · rw [update_of_ne hqp] at hn
          exact .inr ⟨q, hq₁, j, hj, hn, rfl⟩
      · rintro (rfl | ⟨q, hq, j, hj, hn, rfl⟩)
        · refine ⟨p, hperm.mem_iff.2 hps, i, hobjs ▸ hi, ?_, by rw [hsh]⟩
          rw [update_self]
          exact (List.nodup_cons.1 hsl.nodup).1
        · refine ⟨q, hperm.mem_iff.2 hq, j, hobjs ▸ hj, ?_, by rw [hsh]⟩
          by_cases hqp : q = p
          · subst hqp
            rw [update_self]
            exact fun hm => hn (hfree ▸ List.mem_cons_of_mem _ hm)
          · rwa [update_of_ne hqp]

end Alloc

section Free

variable {id : ℕ} {s t : Pmm} {c c' : KmemCache} {others : List Block} {free : ℕ → List ℕ}
  {p i : ℕ} {is : List ℕ}

lemma SlabInv.all_free {w : Shape} (h : SlabInv id s w p is) (h0 : (s.page p).inuse = 0) :
    ∀ i < w.objs, i ∈ is := by
  have hsub : is ⊆ List.range w.objs := fun j hj => List.mem_range.2 (h.bound j hj)
  have hlen := h.inuse
  have hperm := (List.subperm_of_subset h.nodup hsub).perm_of_length_le
    (by rw [List.length_range]; omega)
  exact fun i hi => hperm.mem_iff.2 (List.mem_range.2 hi)

lemma putObject_spec (h : CacheInv id s c others free) (hp : p ∈ c.slabs)
    (hi : i < c.objsPerSlab) (hni : i ∉ free p) :
    Within s (s.putObject c p (c.shape.addr p i)) c.shape p ∧
      SlabInv id (s.putObject c p (c.shape.addr p i)) c.shape p (i :: free p) ∧
      ((s.putObject c p (c.shape.addr p i)).page p).inuse = (s.page p).inuse - 1 := by
  have hsl := h.slab p hp
  have hw := h.shape
  have hf := h.fits hp
  have hmade := makeFree_spec (s := s) hw hf hi (hsl.chain.ptr_lt hw hf hsl.bound)
  rw [putObject]
  generalize s.makeFree c (c.shape.addr p i) (s.page p).freelist = u at hmade
  have hpage : (u.setPage p fun g => { g with
      freelist := c.shape.addr p i, inuse := g.inuse - 1 }).page = update s.page p
      { s.page p with freelist := c.shape.addr p i, inuse := (s.page p).inuse - 1 } := by
    rw [setPage_page, hmade.page]
  have hharm : Harmless u (u.setPage p fun g => { g with
      freelist := c.shape.addr p i, inuse := g.inuse - 1 }) :=
    setPage_harmless _ (fun _ => ⟨rfl, rfl⟩) fun _ => rfl
  generalize ht : (u.setPage p fun g => { g with
      freelist := c.shape.addr p i, inuse := g.inuse - 1 }) = t at hpage hharm
  have hmem : t.mem = u.mem := by rw [← ht, setPage_mem]
  have htouch : Touched s t c.shape p i := by
    refine ⟨fun x hx => by rw [hmem, hmade.mem x hx], fun q => ?_, fun q hq => ?_⟩
    · rw [hpage]
      by_cases hq : q = p
      · subst hq; simp
      · simp [hq]
    · rw [hpage, update_of_ne hq]
  have hsame : ∀ x, c.shape.Covers p i x → t.mem x = u.mem x := fun x _ => by rw [hmem]
  refine ⟨⟨(harmless_of_eq hmade.page hmade.zone hmade.maxPfn).trans hharm, fun z => ?_,
    fun q => ?_, fun q hq => htouch.others q fun he => hq ?_,
    fun x hx => htouch.mem x fun hx' => hx (hw.inside hi hx')⟩,
    hsl.put hw hi hni htouch ?_ ?_ (hmade.object.congr hw hsame) ?_, ?_⟩
  · rw [← ht, setPage_zone, hmade.zone]
  · rw [hpage]
    by_cases hq : q = p
    · subst hq; simp
    · simp [hq]
  · have := Nat.two_pow_pos c.shape.order
    omega
  · simp [hpage]
  · simp [hpage]
  · rw [load64, hmem, ← hmade.next]
    rfl
  · simp [hpage]

lemma blocks_erase (hn : c.slabs.Nodup) (hp : p ∈ c.slabs) :
    (c.blocks ++ others).erase ⟨p, c.order⟩ = (c.listDel p).blocks ++ others := by
  have hinj : Function.Injective fun q => Block.mk q c.order := fun q r he =>
    congrArg Block.base he
  rw [KmemCache.blocks, KmemCache.blocks, KmemCache.listDel_slabs hn,
    List.erase_append_left _ (List.mem_map_of_mem hp), ← List.map_erase hinj]
  rfl

lemma freeSlabPages_spec (h : CacheInv id s c others free) (hp : p ∈ c.slabs)
    (h0 : (s.page p).inuse = 0) :
    ∃ t, freeSlabPages s (c.listDel p) p =
        .ok (t, { c.listDel p with nrSlabs := c.nrSlabs - 1 }) ∧
      CacheInv id t { c.listDel p with nrSlabs := c.nrSlabs - 1 } others free ∧
      Beside s t c.blocks { c.listDel p with nrSlabs := c.nrSlabs - 1 }.blocks others := by
  have hn := h.nodup
  let u := s.setPages p (2 ^ c.order) fun g =>
    { g with slab := false, cache := none, slabHead := none }
  have hharm : Harmless s u := setPages_harmless _ _ fun _ => ⟨rfl, rfl, rfl⟩
  have hpage : ∀ q, ¬ (p ≤ q ∧ q < p + 2 ^ c.order) → u.page q = s.page q := fun q hq => by
    rw [setPages_page, if_neg hq]
  have hgood : Good u (c.blocks ++ others) := h.good.of_harmless hharm (fun _ => rfl) fun q => by
    rw [setPages_page]
    split <;> rfl
  have hb : Block.mk p c.order ∈ c.blocks ++ others :=
    List.mem_append_left _ (List.mem_map_of_mem hp)
  obtain ⟨t, hrun, hfr⟩ := freePages_spec hgood hb
  have hlist : ∀ q ∈ (c.listDel p).slabs, q ∈ c.slabs := fun q hq => by
    rw [KmemCache.listDel_slabs hn] at hq
    exact List.mem_of_mem_erase hq
  have herase : (c.blocks ++ others).erase ⟨p, c.order⟩ = (c.listDel p).blocks ++ others := blocks_erase hn hp
  have hkept : ∀ b ∈ (c.listDel p).blocks ++ others, Agree s t b.base b.order := by
    intro b hb'
    rw [← herase] at hb'
    refine ⟨fun r h₁ h₂ => ?_, fun x _ _ => by rw [hfr.mem]; rfl⟩
    have hfar := h.good.inv.apart_erase hb hb' r
    rw [hfr.page r (coverage_pos_of_mem hb' ⟨h₁, h₂⟩), hpage r fun hr => hfar ⟨hr, h₁, h₂⟩]
  have hslabs : ∀ q ∈ (c.listDel p).slabs, Agree s t q c.order := fun q hq =>
    hkept ⟨q, c.order⟩ (List.mem_append_left _ (List.mem_map_of_mem hq))
  refine ⟨t, ?_, ⟨h.shape, ?_, ?_, fun q hq => (h.slab q (hlist q hq)).congr h.shape (hslabs q hq),
    h.listDel_empty, ?_, ?_⟩, hfr.maxPfn.trans hharm.maxPfn, fun b hb => hkept b (List.mem_append_right _ hb),
    fun q hq hc => ?_⟩
  · have hrun' : (s.setPages p (2 ^ (c.listDel p).order) fun g =>
        { g with slab := false, cache := none, slabHead := none }).freePages p
        (c.listDel p).order = .ok t := hrun
    simp only [freeSlabPages, hrun']
    rfl
  · rw [hfr.maxPfn, hharm.maxPfn]
    exact h.ram
  · have := hfr.good
    rwa [herase] at this
  · change c.nrSlabs - 1 = (c.listDel p).slabs.length
    rw [KmemCache.listDel_slabs hn, List.length_erase_of_mem hp, h.nrSlabs]
  · change c.activeObjs = ((c.listDel p).slabs.map fun q => (t.page q).inuse).sum
    have hsum : ((c.listDel p).slabs.map fun q => (t.page q).inuse).sum =
        ((c.listDel p).slabs.map fun q => (s.page q).inuse).sum := sum_map_congr fun q hq => by
      rw [(hslabs q hq).page q le_rfl (Nat.lt_add_of_pos_right (Nat.two_pow_pos _))]
    rw [hsum, KmemCache.listDel_slabs hn, h.active,
      ((KmemCache.erase_perm hp).map fun q => (s.page q).inuse).sum_eq.symm, List.map_cons,
      List.sum_cons, h0, Nat.zero_add]
  · rw [(freePages_flags hrun).2] at hq
    split_ifs at hq with hqp
    have hfar : ¬ (Block.mk p c.order).Contains q := fun hpq => by
      rw [setPages_page, if_pos hpq] at hq
      cases hq
    rw [hpage q hfar] at hq
    have hcov := congrArg (coverage · q) herase
    have hdel := coverage_erase hb q
    change coverage (c.listDel p).blocks q = 0 at hc
    rw [if_neg hfar, add_zero, hcov, coverage_append, coverage_append, hc] at hdel
    exact ⟨hq, by omega⟩

lemma settleSlab_spec (wasFull : Bool) (h : CacheInv id s c others free) (hp : p ∈ c.slabs)
    (hso : Sorted c free (some p)) (hpart : wasFull = false → p ∈ c.partialSlabs)
    (hne : free p ≠ []) :
    ∃ t c', settleSlab s c p wasFull = .ok (t, c') ∧ Ready id t c' others free ∧
      c'.shape = c.shape ∧ c'.size = c.size ∧ (∀ b, Live c' free b ↔ Live c free b) ∧
      Beside s t c.blocks c'.blocks others := by
  have hn := h.nodup
  -- after the first list move the slab is on `partial` in both cases
  obtain ⟨d, hd, hinv, hsort, hmem, hsh, hsz, hperm⟩ : ∃ d : KmemCache,
      (if wasFull then (c.listDel p).addPartial p else c) = d ∧ CacheInv id s d others free ∧
      Sorted d free (some p) ∧ p ∈ d.partialSlabs ∧ d.shape = c.shape ∧ d.size = c.size ∧
      d.slabs.Perm c.slabs := by
    cases wasFull with
    | false => exact ⟨c, rfl, h, hso, hpart rfl, rfl, rfl, List.Perm.refl _⟩
    | true =>
      refine ⟨_, rfl, h.moveTo hp (List.Perm.refl _) rfl rfl rfl h.listDel_empty,
        (hso.listDel hn).addPartial_hole, List.mem_cons_self, rfl, rfl, ?_⟩
      simp only [if_true, KmemCache.addPartial_slabs, KmemCache.listDel_slabs hn]
      exact KmemCache.erase_perm hp
  have hdn := hinv.nodup
  have hdp : p ∈ d.slabs := hperm.mem_iff.2 hp
  have hsl := hinv.slab p hdp
  have hlen := hsl.inuse
  have hobjs : d.shape.objs = d.objsPerSlab := rfl
  have hcobjs : d.objsPerSlab = c.objsPerSlab := congrArg Shape.objs hsh
  have hlive : ∀ b, Live d free b ↔ Live c free b := fun b => by
    rw [Live, Live, hsh, hcobjs]
    exact exists_congr fun q => and_congr_left fun _ => hperm.mem_iff
  rw [settleSlab, hd]
  by_cases h0 : (s.page p).inuse = 0
  · simp only [if_pos h0]
    have hdel := hsort.listDel hdn
    by_cases hempty : (d.listDel p).emptySlabs = []
    · simp only [if_pos hempty]
      have hadd : ((d.listDel p).addEmpty p).slabs.Perm (p :: (d.listDel p).slabs) :=
        KmemCache.addEmpty_slabs
      refine ⟨s, _, rfl, ⟨hinv.moveTo hdp hadd rfl rfl rfl (by simp [KmemCache.addEmpty, hempty]),
        hdel.addEmpty ?_⟩, hsh, hsz, fun b => ?_, ?_⟩
      · change (free p).length = d.objsPerSlab
        omega
      · rw [← hlive b]
        rw [KmemCache.listDel_slabs hdn] at hadd
        exact exists_congr fun q => and_congr_left fun _ =>
          (hadd.trans (KmemCache.erase_perm hdp)).mem_iff
      · rw [KmemCache.listDel_slabs hdn] at hadd
        exact (Beside.refl s _ _).perm (blocks_perm ((hadd.trans (KmemCache.erase_perm hdp)).trans hperm) hsh)
    · simp only [if_neg hempty]
      obtain ⟨t, hrun, hinv', hbeside⟩ := freeSlabPages_spec hinv hdp h0
      refine ⟨t, _, hrun, ⟨hinv', ⟨hdel.partialSlabs, hdel.fullSlabs, hdel.emptySlabs⟩⟩, hsh, hsz,
        fun b => ?_, ((Beside.refl s _ _).perm (blocks_perm hperm hsh)).trans hbeside⟩
      rw [← hlive b]
      -- a slab without objects in use leaves
      have hmem' : ∀ q, q ∈ (d.listDel p).slabs ↔ q ≠ p ∧ q ∈ d.slabs := fun q => by
        rw [KmemCache.listDel_slabs hdn, hdn.mem_erase_iff]
      constructor
      · rintro ⟨q, hq, i, hi, hni, rfl⟩
        exact ⟨q, ((hmem' q).1 hq).2, i, hi, hni, rfl⟩
      · rintro ⟨q, hq, i, hi, hni, rfl⟩
        refine ⟨q, (hmem' q).2 ⟨?_, hq⟩, i, hi, hni, rfl⟩
        rintro rfl
        exact hni (hsl.all_free h0 i hi)
  · simp only [if_neg h0]
    exact ⟨s, d, rfl, ⟨hinv, hsort.close hdn hmem hne (by omega)⟩, hsh, hsz, hlive,
      (Beside.refl s _ _).perm (blocks_perm hperm hsh)⟩

theorem kmemCacheFree_spec (h : Ready id s c others free) {a : ℕ} (ha : Live c free a) :
    ∃ t c' free', kmemCacheFree id s c a = .ok (t, c') ∧ Ready id t c' others free' ∧
      c'.shape = c.shape ∧ c'.size = c.size ∧ (∀ b, Live c' free' b ↔ Live c free b ∧ b ≠ a) ∧
      Beside s t c.blocks c'.blocks others := by
  obtain ⟨p, hp, i, hi, hni, rfl⟩ := ha
  have hsl := h.inv.slab p hp
  have hw := h.inv.shape
  have hf := h.inv.fits hp
  have hphys := hw.virtToPhys hf hi
  have hobj := hsl.used i hi hni
  have hlen := hsl.inuse
  obtain ⟨hwi, hslt, hin⟩ := putObject_spec h.inv hp hi hni
  generalize ht : s.putObject c p (c.shape.addr p i) = t at hwi hslt hin
  have hput := hslt.inuse
  rw [List.length_cons] at hput
  have hact : (s.page p).inuse ≤ c.activeObjs := h.inv.active ▸
    single_le_sum hp fun q => (s.page q).inuse
  have hinv : CacheInv id t { c with activeObjs := c.activeObjs - 1, frees := c.frees + 1 } others
      (update free p (i :: free p)) := h.inv.within hp hwi hslt (by omega)
  have hsort := h.sorted.update p (i :: free p) (.inl rfl)
  have hobjs : c.shape.objs = c.objsPerSlab := rfl
  have hpart : ((s.page p).inuse == c.objsPerSlab) = false → p ∈ c.partialSlabs := fun hnf => by
    rcases KmemCache.mem_slabs.1 hp with hq | hq | hq
    · exact hq
    · have := h.sorted.fullSlabs p hq nofun
      rw [this, List.length_nil] at hlen
      simp only [beq_eq_false_iff_ne] at hnf
      omega
    · have := h.sorted.emptySlabs p hq nofun
      omega
  obtain ⟨u, c', hrun, hready, hsh, hsz, hlive, hbeside⟩ := settleSlab_spec
    ((s.page p).inuse == c.objsPerSlab) hinv hp
    ⟨hsort.partialSlabs, hsort.fullSlabs, hsort.emptySlabs⟩ hpart (by simp)
  refine ⟨u, c', _, ?_, hready, hsh, hsz, fun b => ?_, (h.inv.beside hp hwi).trans hbeside⟩
  · obtain ⟨h₁, h₂⟩ := hw.virtToPage hf hi
    obtain ⟨hslab, hcache, hhead⟩ := hsl.pages _ h₁ h₂
    have hmod : (c.shape.addr p i - pageToVirt p) % c.stride = 0 := by
      rw [Shape.addr, Nat.add_sub_cancel_left]
      exact Nat.mul_mod_left i c.stride
    simp only [kmemCacheFree, hhead, hslab, hcache, hphys, hmod, hobj.mark,
      redzoneIntact_of hw hf hi hobj.redzone, ht, hrun, ne_eq, not_true_eq_false, or_self,
      Bool.true_eq_false, if_false]
  · rw [hlive b]
    constructor
    · rintro ⟨q, hq, j, hj, hnj, rfl⟩
      by_cases hqp : q = p
      · subst hqp
        rw [update_self] at hnj
        obtain ⟨hji, hnj⟩ := List.ne_and_not_mem_of_not_mem_cons hnj
        exact ⟨⟨q, hq, j, hj, hnj, rfl⟩, fun he => hji (h.inv.addr_inj hq hp hj hi he).2⟩
      · rw [update_of_ne hqp] at hnj
        exact ⟨⟨q, hq, j, hj, hnj, rfl⟩, fun he => hqp (h.inv.addr_inj hq hp hj hi he).1⟩
    · rintro ⟨⟨q, hq, j, hj, hnj, rfl⟩, hne⟩
      refine ⟨q, hq, j, hj, ?_, rfl⟩
      by_cases hqp : q = p
      · subst hqp
        rw [update_self, List.mem_cons, not_or]
        exact ⟨fun he => hne (he ▸ rfl), hnj⟩
      · rwa [update_of_ne hqp]

end Free

end MyOS.Memory.Pmm
