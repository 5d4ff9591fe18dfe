import MyOS.Memory.AddressSpace
import MyOS.Memory.SlabSpec

/-! The ledger of the pages that page tables and user mappings hold. -/

namespace MyOS.Memory

open Library.Dyadic Function

def pageBlock (f : ℕ) : Block := ⟨f, 0⟩

/-- `tabs f` tables live in page `f` and `refs f` entries map it. Every page that is held by the
kernel, by a table or by an entry is allocated, once, and its counters agree with the entries; those
of `mapcount` may be too high when `exact` fails. -/
structure FrameLedger (exact : Prop) (s : Pmm) (kernel : List Block) (tabs refs : ℕ → ℕ) : Prop where
  held : ∃ ts fs : List ℕ, Pmm.Good s (kernel ++ (ts ++ fs).map pageBlock) ∧
    (∀ f, ts.count f = tabs f) ∧ ∀ f, f ∈ fs ↔ 0 < refs f
  refcount : ∀ f, 0 < refs f → (s.page f).refcount = refs f
  mapcount : exact → ∀ f, 0 < refs f → (s.page f).mapcount = refs f
  low : (s.page 0).reserved = true

def SameBytes (tabs refs : ℕ → ℕ) (s t : Pmm) : Prop :=
  ∀ a, 0 < tabs (a / pageSize) + refs (a / pageSize) → t.mem a = s.mem a

section Bytes

variable {tabs refs tabs' refs' : ℕ → ℕ} {s t u : Pmm}

lemma SameBytes.refl : SameBytes tabs refs s s := fun _ _ => rfl

lemma SameBytes.trans (h : SameBytes tabs refs s t) (k : SameBytes tabs' refs' t u)
    (hmono : ∀ f, 0 < tabs f + refs f → 0 < tabs' f + refs' f) : SameBytes tabs refs s u :=
  fun a ha => (k a (hmono _ ha)).trans (h a ha)

lemma SameBytes.of_eq (h : t.mem = s.mem) : SameBytes tabs refs s t := fun _ _ => by rw [h]

end Bytes

namespace FrameLedger

variable {exact : Prop} {s t : Pmm} {kernel : List Block} {tabs refs : ℕ → ℕ} {p q : ℕ} {b : Block}

lemma mem_held {ts fs : List ℕ} (hts : ∀ f, ts.count f = tabs f) (hfs : ∀ f, f ∈ fs ↔ 0 < refs f)
    (hp : 0 < tabs p + refs p) : p ∈ ts ++ fs := by
  rw [List.mem_append, ← List.count_pos_iff, hts, hfs]
  omega

lemma managed (h : FrameLedger exact s kernel tabs refs) (hp : 0 < tabs p + refs p) : s.Managed p := by
  obtain ⟨ts, fs, hgood, hts, hfs⟩ := h.held
  have hm := mem_held hts hfs hp
  exact hgood.inv.managed_of_held (List.mem_append_right _ (List.mem_map_of_mem hm))
    (Block.contains_base (pageBlock p))

lemma ne_zero (h : FrameLedger exact s kernel tabs refs) (hp : 0 < tabs p + refs p) : p ≠ 0 := by
  rintro rfl
  have := (h.managed hp).2
  rw [h.low] at this
  cases this

lemma apart (h : FrameLedger exact s kernel tabs refs) (hb : b ∈ kernel) (hf : b.Contains p) :
    tabs p + refs p = 0 := by
  obtain ⟨ts, fs, hgood, hts, hfs⟩ := h.held
  by_contra hpos
  have hm := mem_held hts hfs (Nat.pos_of_ne_zero hpos)
  obtain ⟨l, r, rfl⟩ := List.append_of_mem hb
  have hin : pageBlock p ∈ l ++ r ++ (ts ++ fs).map pageBlock :=
    List.mem_append_right _ (List.mem_map_of_mem hm)
  have hperm : (l ++ b :: r ++ (ts ++ fs).map pageBlock).Perm (b :: (l ++ r ++ (ts ++ fs).map pageBlock)) := by
    rw [← List.cons_append]
    exact List.perm_middle.append_right _
  exact (coverage_pos_of_mem hin (Block.contains_base (pageBlock p))).ne'
    ((hgood.perm hperm).inv.disjoint_head hf)

lemma kernel_apart (h : FrameLedger exact s (pageBlock p :: kernel) tabs refs) :
    tabs p = 0 ∧ refs p = 0 := by
  have hzero : tabs p + refs p = 0 := h.apart List.mem_cons_self (Block.contains_base (pageBlock p))
  omega

lemma sameBytes {order : ℕ} {gfp : Gfp} (h : FrameLedger exact t (⟨p, order⟩ :: kernel) tabs refs)
    (hmem : ∀ a, t.mem a = if gfp.zero ∧ pageToPhys p ≤ a ∧ a < pageToPhys p + pageSize * 2 ^ order
      then 0 else s.mem a) : SameBytes tabs refs s t := by
  intro a ha
  rw [hmem, if_neg]
  rintro ⟨-, hlo, hhi⟩
  simp only [pageToPhys, pageSize] at hlo hhi
  have := h.apart (p := a / pageSize) List.mem_cons_self ⟨by simp only [pageSize]; omega, by simp only [pageSize]; omega⟩
  omega

lemma allocPages {order : ℕ} {gfp : Gfp} (h : FrameLedger exact s kernel tabs refs)
    (ha : s.allocPages order gfp = (some p, t)) :
    FrameLedger exact t (⟨p, order⟩ :: kernel) tabs refs ∧ (t.page p).refcount = 1 ∧
      (t.page p).mapcount = 0 ∧ p ≠ 0 ∧
      ∀ a, t.mem a = if gfp.zero ∧ pageToPhys p ≤ a ∧ a < pageToPhys p + pageSize * 2 ^ order
        then 0 else s.mem a := by
  obtain ⟨ts, fs, hgood, hts, hfs⟩ := h.held
  rcases Pmm.allocPages_spec order gfp hgood with ⟨p', t', hr, hall⟩ | ⟨hr, -⟩
  · obtain ⟨hp, rfl⟩ := Prod.mk.inj (ha.symm.trans hr)
    cases hp
    have hnew : ∀ f, 0 < refs f → f ≠ p := by
      rintro f hf rfl
      have hm : pageBlock f ∈ kernel ++ (ts ++ fs).map pageBlock :=
        List.mem_append_right _ (List.mem_map_of_mem (List.mem_append_right _ ((hfs f).2 hf)))
      exact (coverage_pos_of_mem hm (Block.contains_base _)).ne'
        (hall.good.inv.disjoint_head (Block.contains_base ⟨f, order⟩))
    refine ⟨⟨⟨ts, fs, hall.good, hts, hfs⟩, ?_, ?_, ?_⟩, hall.refcount, hall.mapcount, ?_, hall.mem⟩
    · intro f hf
      rw [(hall.counts f (hnew f hf)).1]
      exact h.refcount f hf
    · intro he f hf
      rw [(hall.counts f (hnew f hf)).2]
      exact h.mapcount he f hf
    · rw [hall.reserved]
      exact h.low
    · rintro rfl
      have hman := hall.good.inv.managed_of_held List.mem_cons_self (Block.contains_base ⟨0, order⟩)
      have hres := hman.2
      rw [hall.reserved, h.low] at hres
      cases hres
  · cases ha.symm.trans hr

lemma allocPages_none {order : ℕ} {gfp : Gfp} (h : FrameLedger exact s kernel tabs refs)
    (ha : s.allocPages order gfp = (none, t)) : t = s := by
  obtain ⟨ts, fs, hgood, -⟩ := h.held
  rcases Pmm.allocPages_spec order gfp hgood with ⟨p, u, hr, -⟩ | ⟨hr, -⟩
  · cases ha.symm.trans hr
  · exact (Prod.mk.inj (ha.symm.trans hr)).2

lemma freePages (h : FrameLedger exact s kernel tabs refs) (hb : b ∈ kernel) :
    ∃ t, s.freePages b.base b.order = .ok t ∧ FrameLedger exact t (kernel.erase b) tabs refs ∧
      t.mem = s.mem := by
  obtain ⟨ts, fs, hgood, hts, hfs⟩ := h.held
  obtain ⟨t, ht, hfree⟩ := Pmm.freePages_spec hgood (List.mem_append_left _ hb)
  have herase : (kernel ++ (ts ++ fs).map pageBlock).erase b = kernel.erase b ++ (ts ++ fs).map pageBlock :=
    List.erase_append_left _ hb
  have hnew : ∀ f, 0 < refs f → f ≠ b.base := by
    rintro f hf rfl
    have hm : pageBlock b.base ∈ (kernel ++ (ts ++ fs).map pageBlock).erase b := by
      rw [herase]
      exact List.mem_append_right _ (List.mem_map_of_mem (List.mem_append_right _ ((hfs _).2 hf)))
    exact hgood.inv.apart_erase (List.mem_append_left _ hb) hm b.base
      ⟨b.contains_base, Block.contains_base _⟩
  refine ⟨t, ht, ⟨⟨ts, fs, herase ▸ hfree.good, hts, hfs⟩, ?_, ?_, ?_⟩, hfree.mem⟩
  · intro f hf
    rw [(hfree.counts f).1, if_neg (hnew f hf)]
    exact h.refcount f hf
  · intro he f hf
    rw [(hfree.counts f).2]
    exact h.mapcount he f hf
  · rw [hfree.reserved]
    exact h.low

lemma table_iff : FrameLedger exact s (pageBlock p :: kernel) tabs refs ↔
    FrameLedger exact s kernel (tabs + Pi.single p 1) refs := by
  constructor
  · rintro ⟨⟨ts, fs, hgood, hts, hfs⟩, href, hmap, hlow⟩
    refine ⟨⟨p :: ts, fs, hgood.perm List.perm_middle.symm, ?_, hfs⟩, href, hmap, hlow⟩
    intro f
    rw [List.count_cons, hts, Pi.add_apply, Pi.single_apply]
    simp only [beq_iff_eq, eq_comm (a := p)]
  · rintro ⟨⟨ts, fs, hgood, hts, hfs⟩, href, hmap, hlow⟩
    have hp : p ∈ ts := List.count_pos_iff.1 (by rw [hts]; simp)
    have hperm : (kernel ++ (ts ++ fs).map pageBlock).Perm
        (pageBlock p :: (kernel ++ (ts.erase p ++ fs).map pageBlock)) := by
      have hts' : (ts ++ fs).Perm (p :: (ts.erase p ++ fs)) :=
        (List.perm_cons_erase hp).append_right fs
      exact ((hts'.map pageBlock).append_left kernel).trans List.perm_middle
    refine ⟨⟨ts.erase p, fs, hgood.perm hperm, ?_, hfs⟩, href, hmap, hlow⟩
    intro f
    by_cases hf : f = p
    · subst hf
      rw [List.count_erase_self, hts]
      simp
    · rw [List.count_erase_of_ne hf, hts]
      simp [hf]

lemma map (h : FrameLedger exact s (pageBlock p :: kernel) tabs refs) (hr : (s.page p).refcount = 1)
    (hm : (s.page p).mapcount = 1) : FrameLedger exact s kernel tabs (refs + Pi.single p 1) := by
  have hzero := h.kernel_apart.2
  obtain ⟨⟨ts, fs, hgood, hts, hfs⟩, href, hmap, hlow⟩ := h
  have hcount : ∀ f, (refs + Pi.single p 1 : ℕ → ℕ) f = if f = p then 1 else refs f := by
    intro f
    rw [Pi.add_apply, Pi.single_apply]
    split_ifs with hf
    · rw [hf, hzero]
    · rfl
  refine ⟨⟨ts, p :: fs, hgood.perm ?_, hts, ?_⟩, ?_, ?_, hlow⟩
  · rw [List.map_append, List.map_append, List.map_cons, ← List.append_assoc, ← List.append_assoc]
    exact List.perm_middle.symm
  · intro f
    rw [List.mem_cons, hfs, hcount]
    split_ifs with hf <;> simp [hf]
  · intro f
    rw [hcount]
    split_ifs with hf
    · rw [hf, hr]
      exact fun _ => rfl
    · exact href f
  · intro he f
    rw [hcount]
    split_ifs with hf
    · rw [hf, hm]
      exact fun _ => rfl
    · exact hmap he f

lemma unmap (h : FrameLedger exact s kernel tabs (refs + Pi.single p 1)) (hz : refs p = 0) :
    FrameLedger exact s (pageBlock p :: kernel) tabs refs := by
  obtain ⟨⟨ts, fs, hgood, hts, hfs⟩, href, hmap, hlow⟩ := h
  have hother : ∀ f, f ≠ p → (refs + Pi.single p 1 : ℕ → ℕ) f = refs f := by
    intro f hf
    rw [Pi.add_apply, Pi.single_apply, if_neg hf, Nat.add_zero]
  have hp : p ∈ fs := (hfs p).2 (by simp)
  have hperm : (kernel ++ (ts ++ fs).map pageBlock).Perm
      (pageBlock p :: (kernel ++ (ts ++ fs.erase p).map pageBlock)) := by
    have hfs' : (ts ++ fs).Perm (p :: (ts ++ fs.erase p)) :=
      ((List.perm_cons_erase hp).append_left ts).trans List.perm_middle
    exact ((hfs'.map pageBlock).append_left kernel).trans List.perm_middle
  have hnodup : fs.Nodup := by
    have := (List.nodup_append'.1 hgood.inv.held_nodup).2.1
    exact (List.nodup_append'.1 this.of_map).2.1
  have hne : ∀ {f}, 0 < refs f → f ≠ p := by
    rintro f hf rfl
    omega
  refine ⟨⟨ts, fs.erase p, hgood.perm hperm, hts, ?_⟩, ?_, ?_, hlow⟩
  · intro f
    rw [hnodup.mem_erase_iff, hfs]
    constructor
    · rintro ⟨hf, hpos⟩
      rwa [hother f hf] at hpos
    · intro hpos
      exact ⟨hne hpos, (hother f (hne hpos)).symm ▸ hpos⟩
  · intro f hf
    rw [← hother f (hne hf)]
    exact href f ((hother f (hne hf)).symm ▸ hf)
  · intro he f hf
    rw [← hother f (hne hf)]
    exact hmap he f ((hother f (hne hf)).symm ▸ hf)

lemma recount {g : Page → Page} {refs' : ℕ → ℕ} (h : FrameLedger exact s kernel tabs refs)
    (hg : ∀ a, (g a).reserved = a.reserved ∧ (g a).buddy = a.buddy ∧ (g a).order = a.order)
    (hother : ∀ f, f ≠ p → refs' f = refs f) (hpos : 0 < refs' p ↔ 0 < refs p)
    (hr : 0 < refs p → (g (s.page p)).refcount = refs' p)
    (hm : exact → 0 < refs p → (g (s.page p)).mapcount = refs' p) :
    FrameLedger exact (s.setPage p g) kernel tabs refs' := by
  obtain ⟨⟨ts, fs, hgood, hts, hfs⟩, href, hmap, hlow⟩ := h
  have hharm : Pmm.Harmless s (s.setPage p g) :=
    Pmm.setPage_harmless g (fun a => ⟨(hg a).1, (hg a).2.1⟩) fun _ => (hg _).2.2
  have hsame : ∀ f, 0 < refs' f ↔ 0 < refs f := by
    intro f
    by_cases hf : f = p
    · rw [hf, hpos]
    · rw [hother f hf]
  refine ⟨⟨ts, fs, hgood.of_harmless hharm (fun _ => rfl) ?_, hts, ?_⟩, ?_, ?_, ?_⟩
  · intro q
    by_cases hq : q = p
    · subst hq
      rw [Pmm.setPage_page, update_self, (hg _).2.2]
    · rw [Pmm.setPage_page, update_of_ne hq]
  · intro f
    rw [hfs, hsame]
  · intro f hf
    by_cases hfp : f = p
    · subst hfp
      rw [Pmm.setPage_page, update_self]
      exact hr (hpos.1 hf)
    · rw [Pmm.setPage_page, update_of_ne hfp, hother f hfp]
      exact href f ((hsame f).1 hf)
  · intro he f hf
    by_cases hfp : f = p
    · subst hfp
      rw [Pmm.setPage_page, update_self]
      exact hm he (hpos.1 hf)
    · rw [Pmm.setPage_page, update_of_ne hfp, hother f hfp]
      exact hmap he f ((hsame f).1 hf)
  · rw [hharm.reserved]
    exact hlow

lemma of_eq (h : FrameLedger exact s kernel tabs refs) (hp : t.page = s.page) (hz : t.zone = s.zone)
    (hm : t.maxPfn = s.maxPfn) : FrameLedger exact t kernel tabs refs := by
  obtain ⟨⟨ts, fs, hgood, hts, hfs⟩, href, hmap, hlow⟩ := h
  exact ⟨⟨ts, fs, hgood.of_harmless (Pmm.harmless_of_eq hp hz hm) (fun z => by rw [hz])
    fun q => by rw [hp], hts, hfs⟩, hp ▸ href, hp ▸ hmap, hp ▸ hlow⟩

end FrameLedger

section Counters

variable {exact : Prop} {s t : Pmm} {kernel : List Block} {tabs refs : ℕ → ℕ} {p : ℕ}

lemma add_single_of_ne {f : ℕ} (hf : f ≠ p) : (refs + Pi.single p 1 : ℕ → ℕ) f = refs f := by
  rw [Pi.add_apply, Pi.single_apply, if_neg hf, Nat.add_zero]

lemma add_single_self : (refs + Pi.single p 1 : ℕ → ℕ) p = refs p + 1 := by
  rw [Pi.add_apply, Pi.single_eq_same]

lemma dropMapping_eq (s : Pmm) (p : ℕ) : s.dropMapping p =
    (s.setPage p fun g => { g with mapcount := g.mapcount - 1 }).putPage p := by
  rw [Pmm.dropMapping]
  split
  · rfl
  · rename_i h
    have hzero : (s.page p).mapcount = 0 := not_ne_iff.1 h
    have hpage : ∀ g : Page, g.mapcount = 0 → { g with mapcount := g.mapcount - 1 } = g := by
      rintro ⟨⟩ hg
      cases hg
      rfl
    rw [Pmm.setPage, hpage _ hzero, update_eq_self]

lemma FrameLedger.dropMapping (h : FrameLedger exact s kernel tabs (refs + Pi.single p 1)) :
    ∃ t, s.dropMapping p = .ok t ∧ FrameLedger exact t kernel tabs refs ∧ t.mem = s.mem := by
  let g : Page → Page := fun a => { a with mapcount := a.mapcount - 1, refcount := a.refcount - 1 }
  have hpos : 0 < (refs + Pi.single p 1 : ℕ → ℕ) p := by
    rw [add_single_self]
    omega
  have href : (s.page p).refcount = refs p + 1 := by
    rw [h.refcount p hpos, add_single_self]
    rfl
  have hset : ((s.setPage p fun a => { a with mapcount := a.mapcount - 1 }).setPage p fun a =>
      { a with refcount := a.refcount - 1 }) = s.setPage p g := by
    rw [Pmm.setPage, Pmm.setPage, Pmm.setPage]
    simp only [update_self, update_idem, g]
  have hcount : ((s.setPage p g).page p).refcount = refs p := by
    rw [Pmm.setPage_page, update_self]
    simp only [g]
    omega
  rw [dropMapping_eq, Pmm.putPage]
  simp only [hset, hcount]
  rcases Nat.eq_zero_or_pos (refs p) with hz | hp
  · have hlast : FrameLedger exact (s.setPage p g) (pageBlock p :: kernel) tabs refs :=
      (h.unmap hz).recount (fun _ => ⟨rfl, rfl, rfl⟩)
      (fun _ _ => rfl) Iff.rfl (fun hpos => absurd hz hpos.ne') fun _ hpos => absurd hz hpos.ne'
    have hord : ((s.setPage p g).page p).order = 0 := by
      obtain ⟨ts, fs, hgood, -⟩ := hlast.held
      exact hgood.order (pageBlock p) List.mem_cons_self
    obtain ⟨t, ht, hl, hm⟩ := hlast.freePages List.mem_cons_self
    rw [List.erase_cons_head] at hl
    rw [if_pos (by omega), hord]
    exact ⟨t, ht, hl, hm⟩
  · rw [if_neg (by omega), if_neg (by omega)]
    refine ⟨_, rfl, h.recount (fun _ => ⟨rfl, rfl, rfl⟩) (fun f hf => (add_single_of_ne hf).symm) ?_ ?_ ?_, rfl⟩
    · exact iff_of_true hp hpos
    · intro _
      simp only [g]
      omega
    · intro he _
      have hm := h.mapcount he p hpos
      rw [add_single_self] at hm
      simp only [g]
      omega

lemma FrameLedger.shareFrame (h : FrameLedger exact s kernel tabs refs) (hp : 0 < refs p) :
    FrameLedger exact (s.shareFrame p) kernel tabs (refs + Pi.single p 1) := by
  have hset : s.shareFrame p = s.setPage p fun a =>
      { a with refcount := a.refcount + 1, mapcount := a.mapcount + 1 } := by
    rw [Pmm.shareFrame, Pmm.getPage, Pmm.setPage, Pmm.setPage, Pmm.setPage]
    simp only [update_self, update_idem]
  rw [hset]
  refine h.recount (fun _ => ⟨rfl, rfl, rfl⟩) (fun f hf => add_single_of_ne hf) ?_ ?_ ?_
  · refine iff_of_true ?_ hp
    rw [add_single_self]
    omega
  · intro _
    rw [add_single_self, h.refcount p hp]
    rfl
  · intro he _
    rw [add_single_self, h.mapcount he p hp]

lemma FrameLedger.putPage (h : FrameLedger False s kernel tabs (refs + Pi.single p 1)) (hp : 0 < refs p) :
    ∃ t, s.putPage p = .ok t ∧ FrameLedger False t kernel tabs refs ∧ t.mem = s.mem := by
  have hpos : 0 < (refs + Pi.single p 1 : ℕ → ℕ) p := by
    rw [add_single_self]
    omega
  have href : (s.page p).refcount = refs p + 1 := by
    rw [h.refcount p hpos, add_single_self]
    rfl
  rw [Pmm.putPage]
  simp only [Pmm.setPage_page, update_self, href]
  rw [if_neg (by omega), if_neg (by omega)]
  refine ⟨_, rfl, h.recount (fun _ => ⟨rfl, rfl, rfl⟩) (fun f hf => (add_single_of_ne hf).symm)
    (iff_of_true hp hpos) ?_ nofun, rfl⟩
  intro _
  simp only [href]
  omega

lemma FrameLedger.setMapcount (h : FrameLedger exact s (pageBlock p :: kernel) tabs refs)
    (hr : (s.page p).refcount = 1) :
    FrameLedger exact (s.setMapcount p 1) kernel tabs (refs + Pi.single p 1) := by
  have hzero := h.kernel_apart.2
  have hset : FrameLedger exact (s.setPage p fun a => { a with mapcount := 1 }) (pageBlock p :: kernel) tabs refs :=
    h.recount (fun _ => ⟨rfl, rfl, rfl⟩) (fun _ _ => rfl) Iff.rfl (fun hpos => absurd hzero hpos.ne')
    fun _ hpos => absurd hzero hpos.ne'
  refine hset.map ?_ ?_
  · rw [Pmm.setPage_page, update_self]
    exact hr
  · rw [Pmm.setPage_page, update_self]

lemma FrameLedger.freeTable (h : FrameLedger exact s kernel (tabs + Pi.single p 1) refs) :
    ∃ t, s.freePages p 0 = .ok t ∧ FrameLedger exact t kernel tabs refs ∧ t.mem = s.mem := by
  obtain ⟨t, ht, hl, hm⟩ := (FrameLedger.table_iff.2 h).freePages List.mem_cons_self
  rw [List.erase_cons_head] at hl
  exact ⟨t, ht, hl, hm⟩

lemma FrameLedger.pmmAllocPage {gfp : Gfp} (h : FrameLedger exact s kernel tabs refs)
    (ha : s.pmmAllocPage gfp = (some p, t)) :
    FrameLedger exact t kernel (tabs + Pi.single p 1) refs ∧ SameBytes tabs refs s t := by
  rw [Pmm.pmmAllocPage] at ha
  split at ha
  · cases ha
  · rename_i p' u hu
    obtain ⟨hp, rfl⟩ := Prod.mk.inj ha
    split at hp
    · cases hp
    cases hp
    obtain ⟨hl, -, -, -, hmem⟩ := h.allocPages hu
    exact ⟨FrameLedger.table_iff.1 hl, hl.sameBytes hmem⟩

lemma FrameLedger.pmmAllocPage_none {gfp : Gfp} (h : FrameLedger exact s kernel tabs refs)
    (ha : s.pmmAllocPage gfp = (none, t)) : t = s := by
  rw [Pmm.pmmAllocPage] at ha
  split at ha
  · rename_i u hu
    cases ha
    exact h.allocPages_none hu
  · rename_i p u hu
    obtain ⟨hp, rfl⟩ := Prod.mk.inj ha
    obtain ⟨-, -, -, hne, -⟩ := h.allocPages hu
    rw [if_neg] at hp
    · cases hp
    · simp only [pageToPhys, pageSize]
      omega

end Counters

end MyOS.Memory
