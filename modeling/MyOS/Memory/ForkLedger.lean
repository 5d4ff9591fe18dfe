import MyOS.Memory.SpaceLedger

/-! `fork`: parent and child share every page, and neither may write to it. -/

namespace MyOS.Memory

open Library.Dyadic Library.Radix

section Entries

variable {s : Pmm} {kernel : List Block} {tabs refs : ℕ → ℕ} {parent child : Pml4} {key : ℕ}

lemma protect_counts {pte : Pte} (hpte : lookup ptes 3 parent key = some pte) (hk : Fits ptes width 3 key) :
    tableCount 4 (if pte.writable then setLeaf ptes 3 parent key (some pte.shared) else parent) = tableCount 4 parent ∧
      frameCount 4 (if pte.writable then setLeaf ptes 3 parent key (some pte.shared) else parent) =
        frameCount 4 parent := by
  split
  · have hcount := frameCount_setLeaf (v := some pte.shared) (hasPath_of_lookup hpte) hk
    simp only [hpte, mappedBy, Option.elim_some, pte.shared_frame] at hcount
    exact ⟨tableCount_setLeaf (hasPath_of_lookup hpte) hk, add_right_cancel hcount⟩
  · exact ⟨rfl, rfl⟩

lemma copyEntry_runs {pte : Pte} (hpte : lookup ptes 3 parent key = some pte) (hk : Fits ptes width 3 key)
    (hchild : lookup ptes 3 child key = none) (hpos : 0 < refs pte.frame)
    (h : TreeLedger False kernel tabs refs s 4 child) :
    ∃ ok s' parent' child', copyEntry s parent child key = .ok (ok, s', parent', child') ∧
      TreeLedger False kernel tabs refs s' 4 child' ∧ SameBytes tabs refs s s' ∧
      tableCount 4 parent' = tableCount 4 parent ∧ frameCount 4 parent' = frameCount 4 parent := by
  have hpos' : 0 < (refs + frameCount 4 child) pte.frame := by
    rw [Pi.add_apply]
    omega
  obtain ⟨added, hw⟩ := walkCreate_walked child hk (h.shareFrame hpos')
  have hlook := Pmm.walkCreate_lookup 3 (s.shareFrame pte.frame) child key
  have hpath := Pmm.walkCreate_hasPath 3 (s.shareFrame pte.frame) child key
  have hbytes : SameBytes tabs refs s ((s.shareFrame pte.frame).walkCreate 3 child key).2.1 := by
    refine hw.bytes.mono fun f hf => ?_
    rw [Pi.add_apply, Pi.add_apply, Pi.add_apply]
    omega
  have hledger := hw.ledger
  rw [add_assoc, ← hw.tables] at hledger
  rw [copyEntry, hpte]
  simp only
  obtain ⟨htab, hframe⟩ := protect_counts hpte hk
  have hframes : frameCount 4 ((s.shareFrame pte.frame).walkCreate 3 child key).2.2 = frameCount 4 child :=
    frameCount_congr fun va => hlook _
  rcases hr : (s.shareFrame pte.frame).walkCreate 3 child key with ⟨_ | _, s₁, child₁⟩ <;>
    rw [hr] at hlook hpath hbytes hledger hframes
  · obtain ⟨s₂, hs₂, hl, hmem⟩ := hledger.putPage hpos'
    refine ⟨false, s₂, _, child₁, by simp only [hs₂, Bool.false_eq_true, if_false], ?_,
      hbytes.trans (.of_eq hmem) fun _ hf => hf, htab, hframe⟩
    rw [TreeLedger, hframes]
    exact hl
  · have hcount := frameCount_setLeaf (v := some pte.shared) (hpath rfl) hk
    rw [(hlook key).trans hchild] at hcount
    simp only [mappedBy, Option.elim_none, Option.elim_some, pte.shared_frame, add_zero] at hcount
    refine ⟨true, s₁, _, _, rfl, ?_, hbytes, htab, hframe⟩
    rw [TreeLedger, tableCount_setLeaf (hpath rfl) hk, hcount, hframes, ← add_assoc]
    exact hledger

lemma copyEntries_runs {ks : List ℕ} (hnodup : ks.Nodup)
    (hks : ∀ k ∈ ks, k < userKeys ∧ Fits ptes width 3 k ∧ lookup ptes 3 child k = none ∧
      ∃ pte, lookup ptes 3 parent k = some pte ∧ 0 < refs pte.frame)
    (h : TreeLedger False kernel tabs refs s 4 child) :
    ∃ ok s' parent' child', copyEntries ks s parent child = .ok (ok, s', parent', child') ∧
      TreeLedger False kernel tabs refs s' 4 child' ∧ SameBytes tabs refs s s' ∧
      tableCount 4 parent' = tableCount 4 parent ∧ frameCount 4 parent' = frameCount 4 parent ∧
      (ok = true → ∀ k ∈ ks, lookup ptes 3 parent' k = (lookup ptes 3 parent k).map Pte.shared ∧
        lookup ptes 3 child' k = (lookup ptes 3 parent k).map Pte.shared) := by
  induction ks generalizing s parent child with
  | nil => exact ⟨true, s, parent, child, rfl, h, .refl, rfl, rfl, fun _ _ hk => by cases hk⟩
  | cons key ks ih =>
    obtain ⟨hkey, hnodup⟩ := List.nodup_cons.1 hnodup
    obtain ⟨⟨hlt, hfit, hchild, pte, hpte, hpos⟩, hks⟩ := List.forall_mem_cons.1 hks
    obtain ⟨ok, s₁, parent₁, child₁, hc, hl, hb, htab, hframe⟩ := copyEntry_runs hpte hfit hchild hpos h
    have hsh := copyEntry_some hpte hlt hc
    rw [copyEntries, hc]
    cases ok with
    | false => exact ⟨false, s₁, parent₁, child₁, rfl, hl, hb, htab, hframe, fun hok => by cases hok⟩
    | true =>
      have hne : ∀ k ∈ ks, key ≠ k := fun k hk he => hkey (he ▸ hk)
      have hrest : ∀ k ∈ ks, k < userKeys ∧ Fits ptes width 3 k ∧ lookup ptes 3 child₁ k = none ∧
          ∃ pte, lookup ptes 3 parent₁ k = some pte ∧ 0 < refs pte.frame := by
        intro k hk
        obtain ⟨hltk, hfitk, hck, q, hq, hqpos⟩ := hks k hk
        refine ⟨hltk, hfitk, ?_, q, ?_, hqpos⟩
        · rw [hsh.child k hltk, if_neg fun hc => hne k hk hc.2, hck]
        · rw [hsh.parent k hltk, if_neg (hne k hk), hq]
      obtain ⟨ok, s₂, parent₂, child₂, hr, hl₂, hb₂, htab₂, hframe₂, hdone⟩ := ih hnodup hrest hl
      refine ⟨ok, s₂, parent₂, child₂, hr, hl₂, hb.trans hb₂ fun _ hf => hf, htab₂.trans htab,
        hframe₂.trans hframe, fun hok k hk => ?_⟩
      rcases List.mem_cons.1 hk with rfl | hk
      · have hlook := copyEntries_lookup (fun k hk => (hrest k hk).1) hr k hlt
        simpa only [hsh.parent k hlt, hsh.child k hlt, hpte, if_true, and_self, Option.map_some, Pte.shared_shared,
          or_self] using hlook
      · have hlook := hdone hok k hk
        rwa [hsh.parent k (hrest k hk).1, if_neg (hne k hk)] at hlook

lemma copyUserTables_runs {p : ℕ} (h : FrameLedger False s kernel (tabs + tableCount 4 parent + Pi.single p 1)
    (refs + frameCount 4 parent)) :
    ∃ ok s' parent' child', copyUserTables s parent (emptyTable p) = .ok (ok, s', parent', child') ∧
      TreeLedger False kernel (tabs + tableCount 4 parent) (refs + frameCount 4 parent) s' 4 child' ∧
      SameBytes (tabs + tableCount 4 parent) (refs + frameCount 4 parent) s s' ∧
      tableCount 4 parent' = tableCount 4 parent ∧ frameCount 4 parent' = frameCount 4 parent ∧
      (ok = true → ∀ va < 2 ^ 47, Pml4.get parent' va = (parent.get va).map Pte.shared ∧
        Pml4.get child' va = (parent.get va).map Pte.shared) := by
  have hks : ∀ k ∈ keys ptes width 3 parent, k < userKeys ∧ Fits ptes width 3 k ∧
      lookup ptes 3 (emptyTable p : Pml4) k = none ∧
      ∃ pte, lookup ptes 3 parent k = some pte ∧ 0 < (refs + frameCount 4 parent) pte.frame := by
    intro k hk
    obtain ⟨hsome, hfit, hlt⟩ := (mem_keys width_le).1 hk
    obtain ⟨pte, hpte⟩ := Option.isSome_iff_exists.1 hsome
    have hpos : 0 < frameCount 4 parent pte.frame := frameCount_pos hpte hfit
    exact ⟨hlt, hfit, lookup_emptyTable, pte, hpte, by rw [Pi.add_apply]; omega⟩
  obtain ⟨ok, s', parent', child', hr, hl, hb, ht, hf, hdone⟩ :=
    copyEntries_runs (s := s) (keys_nodup width_le parent) hks
      (by rwa [TreeLedger, tableCount_emptyTable, frameCount_emptyTable, add_zero])
  refine ⟨ok, s', parent', child', hr, hl, hb, ht, hf, fun hok va hva => ?_⟩
  by_cases hk : va / pageSize ∈ keys ptes width 3 parent
  · exact hdone hok _ hk
  · have hnone : parent.get va = none := by
      by_contra hne
      exact hk ((mem_keys width_le).2 ⟨Option.isSome_iff_ne_none.2 hne, fits_page hva, page_lt hva⟩)
    have hempty : Pml4.get (emptyTable p) va = none := lookup_emptyTable
    simpa only [hnone, hempty, Option.map_none, or_self] using copyUserTables_get hr hva

end Entries

section Fork

variable {tabs refs : ℕ → ℕ} {m m' : Machine} {parent parent' child : Mm}

lemma copyVmas_kept (vs : List Vma) (h : FrameLedger False m.pmm m.kernel tabs refs) :
    Kept tabs refs m (copyVmas vs m).2.2 := by
  induction vs generalizing m with
  | nil => exact .refl h
  | cons v vs ih =>
    have hk := kmemCacheAlloc_kept h
    rw [copyVmas]
    rcases hr : m.kmemCacheAlloc with ⟨_ | _, m₁⟩ <;> rw [hr] at hk
    · exact hk
    · exact hk.trans (ih hk.ledger)

lemma byte_shared {mm mm' : Mm} {va : ℕ} (hb : SameBytes tabs refs m.pmm m'.pmm)
    (hle : ∀ f, frameCount 4 mm.pml4 f ≤ refs f) (hva : va < 2 ^ 47)
    (hg : mm'.pml4.get va = mm.pml4.get va ∨ mm'.pml4.get va = (mm.pml4.get va).map Pte.shared) :
    mm'.byte m' va = mm.byte m va := by
  rw [Mm.byte, Mm.byte]
  cases hold : mm.pml4.get va with
  | none =>
    rw [hold, Option.map_none, or_self] at hg
    rw [hg, Option.elim_none, Option.elim_none]
  | some pte =>
    have hpos := (frameCount_get hva hold).trans_le (hle pte.frame)
    have hmem : m'.pmm.mem (pte.target va) = _ := mem_target hb (by omega)
    rw [hold] at hg
    rcases hg with hg | hg <;> rw [hg]
    · exact hmem
    · rw [Option.map_some, Option.elim_some, Option.elim_some, Pte.target, pte.shared_frame]
      exact hmem

structure Forked (tabs refs : ℕ → ℕ) (m m' : Machine) (parent parent' child : Mm) : Prop where
  ledger : FrameLedger False m'.pmm m'.kernel (tabs + tableCount 4 parent'.pml4 + tableCount 4 child.pml4)
    (refs + frameCount 4 parent'.pml4 + frameCount 4 child.pml4)
  counts : frameCount 4 parent'.pml4 = frameCount 4 parent.pml4
  childCounts : frameCount 4 child.pml4 ≤ frameCount 4 parent.pml4
  bytes : SameBytes tabs (refs + frameCount 4 parent.pml4) m.pmm m'.pmm
  coherent : parent.Coherent → parent'.Coherent
  childCoherent : child.Coherent
  get : ∀ va < 2 ^ 47, parent'.pml4.get va = (parent.pml4.get va).map Pte.shared ∧
    child.pml4.get va = (parent.pml4.get va).map Pte.shared

lemma mmFork_runs (h : SpaceLedger tabs refs m parent.pml4) :
    (∃ m' parent', mmFork m parent = .ok (m', parent', none) ∧ Served 0 0 tabs refs m m' parent parent') ∨
      ∃ m' parent' child, mmFork m parent = .ok (m', parent', some child) ∧
        Forked tabs refs m m' parent parent' child := by
  rcases mmCreate_runs h with ⟨m₁, hc, hk⟩ | ⟨p, m₁, hc, hs⟩
  · have hs := (hk.released rfl rfl rfl : Released tabs refs m m₁ parent parent).unchanged fun _ _ => rfl
    exact .inl ⟨m₁, parent, by rw [mmFork, hc], hs⟩
  have hl₁ := hs.ledger
  rw [SpaceLedger, TreeLedger, tableCount_emptyTable, frameCount_emptyTable, add_zero] at hl₁
  have hk := copyVmas_kept parent.vmas hl₁
  rcases hv : copyVmas parent.vmas m₁ with ⟨ok, vmas, m₂⟩
  rw [hv] at hk
  have hbytes₂ := hs.bytes.trans (hk.bytes.mono fun f hf => by rw [Pi.add_apply]; omega) fun _ hf => hf
  -- the tables are copied, unless a VMA could not be had
  have hcopy : ∃ ok' s t c, (if ok then copyUserTables m₂.pmm parent.pml4 (emptyTable p)
        else .ok (false, m₂.pmm, parent.pml4, emptyTable p)) = .ok (ok', s, t, c) ∧
      TreeLedger False m₂.kernel (tabs + tableCount 4 parent.pml4) (refs + frameCount 4 parent.pml4)
        s 4 c ∧ SameBytes (tabs + tableCount 4 parent.pml4) (refs + frameCount 4 parent.pml4) m₂.pmm s ∧
      tableCount 4 t = tableCount 4 parent.pml4 ∧ frameCount 4 t = frameCount 4 parent.pml4 ∧
      (∀ va < 2 ^ 47, t.get va = parent.pml4.get va ∨ t.get va = (parent.pml4.get va).map Pte.shared) ∧
      (ok' = true → ∀ va < 2 ^ 47, t.get va = (parent.pml4.get va).map Pte.shared ∧
        c.get va = (parent.pml4.get va).map Pte.shared) := by
    cases ok with
    | false =>
      refine ⟨false, _, _, _, rfl, ?_, .refl, rfl, rfl, fun _ _ => .inl rfl, fun hc => by cases hc⟩
      rw [TreeLedger, tableCount_emptyTable, frameCount_emptyTable, add_zero]
      exact hk.ledger
    | true =>
      obtain ⟨ok', s, t, c, hr, hl, hb, ht, hf, hdone⟩ := copyUserTables_runs hk.ledger
      exact ⟨ok', s, t, c, hr, hl, hb, ht, hf, fun va hva => (copyUserTables_get hr hva).1, hdone⟩
  obtain ⟨ok', s, t, c, hr, hl, hb, ht, hf, hget, hdone⟩ := hcopy
  have hb := hbytes₂.trans hb fun _ hf => hf
  have hpml4 : ({ parent with pml4 := t } : Mm).flushAll.pml4 = t := flushAll_pml4 _
  rw [mmFork, hc]
  simp only [hv, hr]
  cases ok' with
  | true =>
    refine .inr ⟨_, _, _, rfl, ⟨?_, ?_, ?_, hb.mono ?_, Mm.Coherent.flushAll, fun _ _ _ hs => (by cases hs), ?_⟩⟩
    · rw [hpml4, ht, hf]
      exact hl
    · rw [hpml4, hf]
    · refine frameCount_le fun va hva pte hg => ?_
      rw [(hdone rfl va hva).2, Option.map_eq_some_iff] at hg
      obtain ⟨old, hold, rfl⟩ := hg
      exact ⟨old, hold, old.shared_frame.symm⟩
    · intro f hf
      rw [Pi.add_apply tabs]
      omega
    · rw [hpml4]
      exact hdone rfl
  | false =>
    obtain ⟨m', hd, hk'⟩ : ∃ m', mmDestroy { m₂ with pmm := s }
        { pml4 := c, brkStart := parent.brkStart, brk := parent.brk, vmas := vmas } = .ok m' ∧
        Kept _ _ { m₂ with pmm := s } m' := mmDestroy_kept hl rfl
    have hb' := hb.trans hk'.bytes fun _ hf => hf
    refine .inl ⟨m', Mm.flushAll { parent with pml4 := t }, by simp only [Bool.false_eq_true, if_false, hd], ⟨?_, ?_, hb'.of_add,
      (sameAreas_flushAll _).active, Mm.Coherent.flushAll, fun va hva pte hg hw => ?_, fun va hva => ?_⟩⟩
    · rw [hpml4, SpaceLedger, TreeLedger, ht, hf]
      exact hk'.ledger
    · intro f
      rw [hpml4, hf]
      exact le_max_left _ _
    · rw [hpml4] at hg
      rcases hget va hva with he | he
      · exact .inl (he ▸ hg)
      · rw [he, Option.map_eq_some_iff] at hg
        obtain ⟨old, -, rfl⟩ := hg
        rw [old.shared_writable] at hw
        cases hw
    · rw [if_neg (by omega)]
      refine byte_shared hb' (fun f => Nat.le_add_left _ _) hva ?_
      rw [hpml4]
      exact hget va hva

end Fork

end MyOS.Memory
