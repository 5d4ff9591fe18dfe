import MyOS.Fs.BufferCache
import MyOS.Library.Counted

/-! The cache has one entry a block and never evicts or retargets an entry that is in use. -/

namespace MyOS.Fs

open Library Function

namespace BufPc

def uses : BufPc → Option ℕ
  | .allocated _ b | .got _ b | .locked _ b | .held _ b _ | .failed _ b | .unlocked _ b => some b
  | _ => none

def entry : BufPc → Option (BufKey × ℕ)
  | .got k b | .locked k b | .held k b _ | .failed k b | .unlocked k b => some (k, b)
  | _ => none

def locks : BufPc → Option ℕ
  | .locked _ b | .held _ b _ | .failed _ b => some b
  | _ => none

def dirty : BufPc → Option ℕ
  | .held _ b true => some b
  | _ => none

end BufPc

namespace CacheState

structure Table (s : CacheState) : Prop where
  nodup : s.lru.Nodup
  unique : ∀ b ∈ s.lru, ∀ c ∈ s.lru, (s.buf b).key = (s.buf c).key → b = c
  held : ∀ p k b, (s.pc p).entry = some (k, b) → b ∈ s.lru ∧ (s.buf b).key = k
  count : s.count = s.lru.length

structure TableInvariant (s : CacheState) : Prop extends Table s where
  refs : ∀ b, b ∈ s.lru ∨ (∃ p k, s.pc p = .allocated k b) →
    Counted (fun p => (s.pc p).uses) b (s.buf b).refcount
  fresh : ∀ p k b, s.pc p = .allocated k b → b ∉ s.lru ∧ (s.buf b).key = k ∧
    (s.buf b).valid = false ∧ (s.buf b).refcount = 1
  locks : ∀ p b, (s.pc p).locks = some b → (s.buf b).lock = some p

variable {s : CacheState} {b p x : ℕ} {k : BufKey} {q : BufPc} {l : List ℕ}

lemma lookup_some (h : s.lookup k = some b) : b ∈ s.lru ∧ (s.buf b).key = k :=
  ⟨List.mem_of_find?_eq_some h, by simpa using List.find?_some h⟩

lemma lookup_none (h : s.lookup k = none) : ∀ b ∈ s.lru, (s.buf b).key ≠ k := by
  simpa [lookup] using h

lemma victim_some (h : s.victim = some b) : b ∈ s.lru ∧ (s.buf b).refcount = 0 := by
  unfold victim at h
  split_ifs at h
  simpa using List.mem_of_getLast? h

lemma mem_front (hb : b ∈ l) : x ∈ b :: l.erase b ↔ x ∈ l := by
  by_cases hx : x = b
  · simp [hx, hb]
  · rw [List.mem_cons, List.mem_erase_of_ne hx]
    simp [hx]

lemma nodup_front (h : l.Nodup) : (b :: l.erase b).Nodup :=
  List.nodup_cons.2 ⟨h.not_mem_erase, h.erase b⟩

lemma length_front (hb : b ∈ l) : (b :: l.erase b).length = l.length := by
  have := List.length_pos_of_mem hb
  rw [List.length_cons, List.length_erase_of_mem hb]
  omega

lemma uses_update : (fun r => (update s.pc p q r).uses) =
    update (fun r => (s.pc r).uses) p q.uses := by
  funext r
  by_cases hr : r = p
  · subst hr
    simp
  · simp [hr]

lemma TableInvariant.live (h : TableInvariant s) (hu : (s.pc p).uses = some b) :
    b ∈ s.lru ∨ ∃ p k, s.pc p = .allocated k b := by
  cases hpc : s.pc p with
  | allocated k c => exact .inr ⟨p, k, by simpa [hpc, BufPc.uses] using hu⟩
  | idle | missed => simp [hpc, BufPc.uses] at hu
  | _ =>
    simp only [hpc, BufPc.uses, Option.some.injEq] at hu
    subst hu
    exact .inl (h.held p _ _ (by simp only [hpc, BufPc.entry]; rfl)).1

lemma TableInvariant.lock_free (h : TableInvariant s) (hb : (s.buf b).lock = none) :
    (s.pc p).locks ≠ some b := by
  intro hp
  rw [h.locks p b hp] at hb
  cases hb

lemma TableInvariant.quiet (h : TableInvariant s) (t : CacheState) (hlru : t.lru = s.lru)
    (hcount : t.count = s.count) (hpc : t.pc = update s.pc p q)
    (hu : q.uses = (s.pc p).uses) (he : q.entry = (s.pc p).entry)
    (hq : ∀ k b, q = .allocated k b → s.pc p = .allocated k b)
    (hkey : ∀ b, (t.buf b).key = (s.buf b).key)
    (href : ∀ b, (t.buf b).refcount = (s.buf b).refcount)
    (hvalid : ∀ b, b ∉ s.lru → (t.buf b).valid = (s.buf b).valid)
    (hlocks : ∀ p b, (t.pc p).locks = some b → (t.buf b).lock = some p) : TableInvariant t := by
  have hback : ∀ r k b, t.pc r = .allocated k b → s.pc r = .allocated k b := by
    intro r k b hr
    rw [hpc] at hr
    by_cases hrp : r = p
    · subst hrp
      exact hq k b (by simpa using hr)
    · simpa [hrp] using hr
  refine ⟨⟨hlru ▸ h.nodup, ?_, ?_, ?_⟩, ?_, ?_, hlocks⟩
  · rw [hlru]
    simpa only [hkey] using h.unique
  · intro r k b hr
    rw [hlru, hkey]
    apply h.held r k b
    rw [hpc] at hr
    by_cases hrp : r = p
    · subst hrp
      rw [← he]
      simpa using hr
    · simpa [hrp] using hr
  · rw [hcount, hlru, h.count]
  · intro b hb
    have huses : (fun r => (t.pc r).uses) = fun r => (s.pc r).uses := by
      rw [hpc, uses_update, hu]
      exact update_eq_self p _
    rw [huses, href]
    apply h.refs
    rw [hlru] at hb
    rcases hb with hb | ⟨r, k, hr⟩
    · exact .inl hb
    · exact .inr ⟨r, k, hback r k b hr⟩
  · intro r k b hr
    obtain ⟨h₁, h₂, h₃, h₄⟩ := h.fresh r k b (hback r k b hr)
    exact ⟨hlru ▸ h₁, by rw [hkey, h₂], by rw [hvalid b h₁, h₃], by rw [href, h₄]⟩

lemma TableInvariant.locks_same (h : TableInvariant s) {t : CacheState}
    (hpc : t.pc = update s.pc p q)
    (hq : ∀ b, q.locks = some b → (s.pc p).locks = some b)
    (hlock : ∀ r b, (s.pc r).locks = some b → (t.buf b).lock = (s.buf b).lock) :
    ∀ r b, (t.pc r).locks = some b → (t.buf b).lock = some r := by
  intro r b hr
  have hs : (s.pc r).locks = some b := by
    rw [hpc] at hr
    by_cases hrp : r = p
    · subst hrp
      exact hq b (by simpa using hr)
    · simpa [hrp] using hr
  rw [hlock r b hs, h.locks r b hs]

lemma uses_of_entry {pc : BufPc} {v : BufKey × ℕ} (h : pc.entry = some v) :
    pc.uses = some v.2 := by
  cases pc <;> simp_all [BufPc.entry, BufPc.uses]
  all_goals rw [← h]

lemma uses_of_locks {pc : BufPc} (h : pc.locks = some b) : ∃ k, pc.entry = some (k, b) := by
  cases pc <;> simp_all [BufPc.locks, BufPc.entry]

lemma TableInvariant.private_unique (h : TableInvariant s) {r : ℕ} {k' : BufKey}
    (hp : s.pc p = .allocated k b) (hr : s.pc r = .allocated k' b) : p = r := by
  have hc := h.refs b (.inr ⟨p, k, hp⟩)
  rw [(h.fresh p k b hp).2.2.2] at hc
  exact hc.unique (by simp [hp, BufPc.uses]) (by simp [hr, BufPc.uses])

lemma TableInvariant.unused (h : TableInvariant s) (hb : b ∈ s.lru)
    (h0 : (s.buf b).refcount = 0) (r : ℕ) : (s.pc r).uses ≠ some b := by
  have hc := h.refs b (.inl hb)
  rw [h0] at hc
  exact hc.eq_zero r

lemma ne_of_update {r : ℕ} {v : BufKey} (hq : ∀ b, q ≠ .allocated v b)
    (hr : update s.pc p q r = .allocated v b) : r ≠ p ∧ s.pc r = .allocated v b := by
  by_cases hrp : r = p
  · subst hrp
    exact absurd (by simpa using hr) (hq b)
  · exact ⟨hrp, by simpa [hrp] using hr⟩

lemma TableInvariant.refer (h : TableInvariant s) {lru : List ℕ}
    (hmem : ∀ x, x ∈ lru ↔ x ∈ s.lru) (hnodup : lru.Nodup) (hlen : lru.length = s.lru.length)
    (hb : b ∈ s.lru) (hk : (s.buf b).key = k) (hp : (s.pc p).entry = none) :
    TableInvariant { (s.setPc p (.got k b)).ref b with lru := lru } := by
  have hkey : ∀ x, (((s.setPc p (.got k b)).ref b).buf x).key = (s.buf x).key := by
    intro x
    by_cases hx : x = b
    · subst hx
      simp [ref, setBuf, setPc]
    · simp [ref, setBuf, setPc, hx]
  have hne : (s.pc p).uses ≠ some b := by
    intro hu
    rcases hpc : s.pc p with _ | _ | ⟨v, c⟩ | _ | _ | _ | _ | _
    all_goals simp only [hpc, BufPc.uses, BufPc.entry, reduceCtorEq] at hu hp
    obtain rfl := Option.some.inj hu
    exact (h.fresh p v c hpc).1 hb
  have hback : ∀ r v c, (update s.pc p (.got k b)) r = .allocated v c →
      r ≠ p ∧ s.pc r = .allocated v c := fun r v c hr => ne_of_update (by simp) hr
  refine ⟨⟨hnodup, ?_, ?_, ?_⟩, ?_, ?_, ?_⟩
  · intro x hx y hy hxy
    rw [hkey, hkey] at hxy
    exact h.unique x ((hmem x).1 hx) y ((hmem y).1 hy) hxy
  · intro r v c hr
    simp only [hkey, hmem]
    by_cases hrp : r = p
    · subst hrp
      simp only [ref, setBuf, setPc, update_self, BufPc.entry, Option.some.injEq,
        Prod.mk.injEq] at hr
      obtain ⟨rfl, rfl⟩ := hr
      exact ⟨hb, hk⟩
    · exact h.held r v c (by simpa [ref, setBuf, setPc, hrp] using hr)
  · exact h.count.trans hlen.symm
  · intro c hc
    have hlive : c ∈ s.lru ∨ ∃ r v, s.pc r = .allocated v c := by
      rcases hc with hc | ⟨r, v, hr⟩
      · exact .inl ((hmem c).1 hc)
      · exact .inr ⟨r, v, (hback r v c hr).2⟩
    have hcount := h.refs c hlive
    simp only [ref, setBuf, setPc]
    rw [uses_update]
    by_cases hcb : c = b
    · subst hcb
      rw [update_self]
      exact hcount.add hne
    · rw [update_of_ne hcb]
      apply hcount.same
      constructor
      · intro hu
        exact absurd (Option.some.inj hu).symm hcb
      · intro hu
        -- the buffer that `p` has allocated is no other's and not in the list
        exfalso
        rcases hpc : s.pc p with _ | _ | ⟨v, d⟩ | _ | _ | _ | _ | _
        all_goals simp only [hpc, BufPc.uses, BufPc.entry, reduceCtorEq] at hu hp
        obtain rfl := Option.some.inj hu
        rcases hc with hc | ⟨r, w, hr⟩
        · exact (h.fresh p v d hpc).1 ((hmem d).1 hc)
        · exact (hback r w d hr).1 (h.private_unique hpc (hback r w d hr).2).symm
  · intro r v c hr
    obtain ⟨h₁, h₂, h₃, h₄⟩ := h.fresh r v c (hback r v c hr).2
    have hcb : c ≠ b := fun hcb => h₁ (hcb ▸ hb)
    refine ⟨fun hc => h₁ ((hmem c).1 hc), by rw [hkey, h₂], ?_, ?_⟩
    · simpa [ref, setBuf, setPc, hcb] using h₃
    · simpa [ref, setBuf, setPc, hcb] using h₄
  · apply h.locks_same (p := p) (q := .got k b) rfl (by simp [BufPc.locks])
    intro r c _
    by_cases hcb : c = b
    · subst hcb
      simp [ref, setBuf, setPc]
    · simp [ref, setBuf, setPc, hcb]

lemma TableInvariant.step_unref (h : TableInvariant s) (hp : s.pc p = .unlocked k b) :
    TableInvariant ((s.setPc p .idle).setBuf b
      { s.buf b with refcount := (s.buf b).refcount - 1 }) := by
  have hbuf : ∀ x, ((s.setPc p .idle).setBuf b
      { s.buf b with refcount := (s.buf b).refcount - 1 }).buf x =
      if x = b then { s.buf b with refcount := (s.buf b).refcount - 1 } else s.buf x := by
    intro x
    by_cases hx : x = b <;> simp [setBuf, setPc, hx]
  have hkey : ∀ x, (if x = b then { s.buf b with refcount := (s.buf b).refcount - 1 }
      else s.buf x).key = (s.buf x).key := by
    intro x
    by_cases hx : x = b <;> simp [hx]
  have hb := (h.held p k b (by simp [hp, BufPc.entry])).1
  refine ⟨⟨h.nodup, ?_, ?_, h.count⟩, ?_, ?_, ?_⟩
  · intro x hx y hy hxy
    rw [hbuf, hbuf, hkey, hkey] at hxy
    exact h.unique x hx y hy hxy
  · intro r v c hr
    rw [hbuf, hkey]
    by_cases hrp : r = p
    · subst hrp
      simp [setBuf, setPc, BufPc.entry] at hr
    · exact h.held r v c (by simpa [setBuf, setPc, hrp] using hr)
  · intro c hc
    have hcount : Counted (fun r => (s.pc r).uses) c (s.buf c).refcount := by
      apply h.refs
      rcases hc with hc | ⟨r, v, hr⟩
      · exact .inl hc
      · exact .inr ⟨r, v, (ne_of_update (by simp) hr).2⟩
    rw [hbuf]
    simp only [setBuf, setPc]
    rw [uses_update]
    by_cases hcb : c = b
    · subst hcb
      rw [if_pos rfl]
      exact hcount.remove (by simp [hp, BufPc.uses]) (by simp [BufPc.uses])
    · rw [if_neg hcb]
      apply hcount.same
      simp [hp, BufPc.uses, Ne.symm hcb]
  · intro r v c hr
    obtain ⟨h₁, h₂, h₃, h₄⟩ := h.fresh r v c (ne_of_update (by simp) hr).2
    have hcb : c ≠ b := fun hcb => h₁ (hcb ▸ hb)
    rw [hbuf, if_neg hcb]
    exact ⟨h₁, h₂, h₃, h₄⟩
  · apply h.locks_same (p := p) (q := .idle) rfl (by simp [BufPc.locks])
    intro r c _
    rw [hbuf]
    by_cases hcb : c = b <;> simp [hcb]

lemma TableInvariant.step_reuse (h : TableInvariant s) (hp : s.pc p = .idle)
    (hl : s.lookup k = none) (hv : s.victim = some b) :
    TableInvariant (((s.setPc p (.got k b)).setBuf b
      { s.buf b with key := k, valid := false, refcount := 1 }).toFront b) := by
  obtain ⟨hb, h0⟩ := victim_some hv
  have hunused := h.unused hb h0
  have hnew := lookup_none hl
  have hbuf : ∀ x, x ≠ b → (((s.setPc p (.got k b)).setBuf b
      { s.buf b with key := k, valid := false, refcount := 1 }).toFront b).buf x = s.buf x := by
    intro x hx
    simp [setBuf, setPc, toFront, hx]
  have hself : (((s.setPc p (.got k b)).setBuf b
      { s.buf b with key := k, valid := false, refcount := 1 }).toFront b).buf b =
      { s.buf b with key := k, valid := false, refcount := 1 } := by
    simp [setBuf, setPc, toFront]
  have hback : ∀ r v c, update s.pc p (.got k b) r = .allocated v c →
      s.pc r = .allocated v c := fun r v c hr => (ne_of_update (by simp) hr).2
  refine ⟨⟨nodup_front h.nodup, ?_, ?_, ?_⟩, ?_, ?_, ?_⟩
  · intro x hx y hy hxy
    have hx := (mem_front hb).1 hx
    have hy := (mem_front hb).1 hy
    by_cases hxb : x = b
    · by_cases hyb : y = b
      · rw [hxb, hyb]
      · rw [hxb, hself, hbuf y hyb] at hxy
        exact absurd hxy.symm (hnew y hy)
    · by_cases hyb : y = b
      · rw [hyb, hself, hbuf x hxb] at hxy
        exact absurd hxy (hnew x hx)
      · rw [hbuf x hxb, hbuf y hyb] at hxy
        exact h.unique x hx y hy hxy
  · intro r v c hr
    by_cases hrp : r = p
    · subst hrp
      simp only [setBuf, setPc, toFront, update_self, BufPc.entry, Option.some.injEq,
        Prod.mk.injEq] at hr
      obtain ⟨rfl, rfl⟩ := hr
      exact ⟨(mem_front hb).2 hb, by rw [hself]⟩
    · have hs : (s.pc r).entry = some (v, c) := by simpa [setBuf, setPc, toFront, hrp] using hr
      have hcb : c ≠ b := by
        rintro rfl
        exact hunused r (uses_of_entry hs)
      obtain ⟨h₁, h₂⟩ := h.held r v c hs
      exact ⟨(mem_front hb).2 h₁, by rw [hbuf c hcb, h₂]⟩
  · exact h.count.trans (length_front hb).symm
  · intro c hc
    have hcount : Counted (fun r => (s.pc r).uses) c (s.buf c).refcount := by
      apply h.refs
      rcases hc with hc | ⟨r, v, hr⟩
      · exact .inl ((mem_front hb).1 hc)
      · exact .inr ⟨r, v, hback r v c hr⟩
    simp only [setBuf, setPc, toFront]
    rw [uses_update]
    by_cases hcb : c = b
    · subst hcb
      rw [h0] at hcount
      simpa [BufPc.uses] using hcount.add (hunused p)
    · rw [update_of_ne hcb]
      apply hcount.same
      simp [hp, BufPc.uses, Ne.symm hcb]
  · intro r v c hr
    obtain ⟨h₁, h₂⟩ := h.fresh r v c (hback r v c hr)
    have hcb : c ≠ b := fun hcb => h₁ (hcb ▸ hb)
    rw [hbuf c hcb]
    exact ⟨fun hc => h₁ ((mem_front hb).1 hc), h₂⟩
  · apply h.locks_same (p := p) (q := .got k b) rfl (by simp [BufPc.locks])
    intro r c _
    by_cases hcb : c = b
    · rw [hcb, hself]
    · rw [hbuf c hcb]

lemma TableInvariant.step_evict (h : TableInvariant s) (hp : s.pc p = .idle)
    (hv : s.victim = some b) :
    TableInvariant { s.setPc p (.missed k) with lru := s.lru.erase b, count := s.count - 1 } := by
  obtain ⟨hb, h0⟩ := victim_some hv
  have hunused := h.unused hb h0
  have hback : ∀ r v c, update s.pc p (.missed k) r = .allocated v c →
      s.pc r = .allocated v c := fun r v c hr => (ne_of_update (by simp) hr).2
  refine ⟨⟨h.nodup.erase b, ?_, ?_, ?_⟩, ?_, ?_, ?_⟩
  · intro x hx y hy hxy
    exact h.unique x (List.mem_of_mem_erase hx) y (List.mem_of_mem_erase hy) hxy
  · intro r v c hr
    by_cases hrp : r = p
    · subst hrp
      simp [setPc, BufPc.entry] at hr
    · have hs : (s.pc r).entry = some (v, c) := by simpa [setPc, hrp] using hr
      obtain ⟨h₁, h₂⟩ := h.held r v c hs
      have hcb : c ≠ b := by
        rintro rfl
        exact hunused r (uses_of_entry hs)
      exact ⟨(List.mem_erase_of_ne hcb).2 h₁, h₂⟩
  · simp only
    rw [List.length_erase_of_mem hb, h.count]
  · intro c hc
    have hcount : Counted (fun r => (s.pc r).uses) c (s.buf c).refcount := by
      apply h.refs
      rcases hc with hc | ⟨r, v, hr⟩
      · exact .inl (List.mem_of_mem_erase hc)
      · exact .inr ⟨r, v, hback r v c hr⟩
    simp only [setPc]
    rw [uses_update]
    apply hcount.same
    simp [hp, BufPc.uses]
  · intro r v c hr
    obtain ⟨h₁, h₂⟩ := h.fresh r v c (hback r v c hr)
    exact ⟨fun hc => h₁ (List.mem_of_mem_erase hc), h₂⟩
  · exact h.locks_same (p := p) (q := .missed k) rfl (by simp [BufPc.locks]) fun _ _ _ => rfl

lemma TableInvariant.step_alloc (h : TableInvariant s) {data : ℕ → UInt8} (hp : s.pc p = .missed k)
    (hb : b ∉ s.lru) (hf : ∀ q l, s.pc q ≠ .allocated l b) :
    TableInvariant ((s.setPc p (.allocated k b)).setBuf b ⟨k, data, false, 1, none⟩) := by
  have hbuf : ∀ x, x ≠ b → ((s.setPc p (.allocated k b)).setBuf b
      ⟨k, data, false, 1, none⟩).buf x = s.buf x := by
    intro x hx
    simp [setBuf, setPc, hx]
  have hne : ∀ x ∈ s.lru, x ≠ b := fun x hx hxb => hb (hxb ▸ hx)
  refine ⟨⟨h.nodup, ?_, ?_, h.count⟩, ?_, ?_, ?_⟩
  · intro x hx y hy hxy
    rw [hbuf x (hne x hx), hbuf y (hne y hy)] at hxy
    exact h.unique x hx y hy hxy
  · intro r v c hr
    by_cases hrp : r = p
    · subst hrp
      simp [setBuf, setPc, BufPc.entry] at hr
    · obtain ⟨h₁, h₂⟩ := h.held r v c (by simpa [setBuf, setPc, hrp] using hr)
      exact ⟨h₁, by rw [hbuf c (hne c h₁), h₂]⟩
  · intro c hc
    simp only [setBuf, setPc]
    rw [uses_update]
    by_cases hcb : c = b
    · subst hcb
      have hnone : Counted (fun r => (s.pc r).uses) c 0 := by
        apply Counted.none
        intro r hr
        rcases h.live hr with hm | ⟨r', v, hr'⟩
        · exact hb hm
        · exact hf r' v hr'
      simpa [BufPc.uses] using hnone.add (i := p) (by simp [hp, BufPc.uses])
    · rw [update_of_ne hcb]
      have hlive : c ∈ s.lru ∨ ∃ r v, s.pc r = .allocated v c := by
        rcases hc with hc | ⟨r, v, hr⟩
        · exact .inl hc
        · by_cases hrp : r = p
          · subst hrp
            simp [setBuf, setPc, Ne.symm hcb] at hr
          · exact .inr ⟨r, v, by simpa [setBuf, setPc, hrp] using hr⟩
      apply (h.refs c hlive).same
      simp [hp, BufPc.uses, Ne.symm hcb]
  · intro r v c hr
    by_cases hrp : r = p
    · subst hrp
      simp only [setBuf, setPc, update_self, BufPc.allocated.injEq] at hr
      obtain ⟨rfl, rfl⟩ := hr
      exact ⟨hb, by simp [setBuf], by simp [setBuf], by simp [setBuf]⟩
    · have hs : s.pc r = .allocated v c := by simpa [setBuf, setPc, hrp] using hr
      have hcb : c ≠ b := by
        rintro rfl
        exact hf r v hs
      rw [hbuf c hcb]
      exact h.fresh r v c hs
  · apply h.locks_same (p := p) (q := .allocated k b) rfl (by simp [BufPc.locks])
    intro r c hr
    obtain ⟨v, hv⟩ := uses_of_locks hr
    rw [hbuf c (hne c (h.held r v c hv).1)]

lemma TableInvariant.step_insert (h : TableInvariant s) (hp : s.pc p = .allocated k b)
    (hl : s.lookup k = none) :
    TableInvariant { s.setPc p (.got k b) with lru := b :: s.lru, count := s.count + 1 } := by
  obtain ⟨hb, hk, hval, href⟩ := h.fresh p k b hp
  have hnew := lookup_none hl
  have hback : ∀ r v c, update s.pc p (.got k b) r = .allocated v c →
      r ≠ p ∧ s.pc r = .allocated v c := fun r v c hr => ne_of_update (by simp) hr
  refine ⟨⟨List.nodup_cons.2 ⟨hb, h.nodup⟩, ?_, ?_, ?_⟩, ?_, ?_, ?_⟩
  · intro x hx y hy hxy
    simp only [setPc] at hxy
    rcases List.mem_cons.1 hx with hxb | hxl
    · rcases List.mem_cons.1 hy with hyb | hyl
      · rw [hxb, hyb]
      · exact absurd (hxy.symm.trans (hxb ▸ hk)) (hnew y hyl)
    · rcases List.mem_cons.1 hy with hyb | hyl
      · exact absurd (hxy.trans (hyb ▸ hk)) (hnew x hxl)
      · exact h.unique x hxl y hyl hxy
  · intro r v c hr
    by_cases hrp : r = p
    · subst hrp
      simp only [setPc, update_self, BufPc.entry, Option.some.injEq, Prod.mk.injEq] at hr
      obtain ⟨rfl, rfl⟩ := hr
      exact ⟨List.mem_cons_self, hk⟩
    · obtain ⟨h₁, h₂⟩ := h.held r v c (by simpa [setPc, hrp] using hr)
      exact ⟨List.mem_cons_of_mem b h₁, h₂⟩
  · simp only [List.length_cons, h.count]
  · intro c hc
    have hcount : Counted (fun r => (s.pc r).uses) c (s.buf c).refcount := by
      apply h.refs
      rcases hc with hc | ⟨r, v, hr⟩
      · rcases List.mem_cons.1 hc with rfl | hc
        · exact .inr ⟨p, k, hp⟩
        · exact .inl hc
      · exact .inr ⟨r, v, (hback r v c hr).2⟩
    simp only [setPc]
    rw [uses_update]
    apply hcount.same
    simp [hp, BufPc.uses]
  · intro r v c hr
    obtain ⟨hrp, hs⟩ := hback r v c hr
    obtain ⟨h₁, h₂⟩ := h.fresh r v c hs
    refine ⟨?_, h₂⟩
    intro hc
    rcases List.mem_cons.1 hc with rfl | hc
    · exact hrp (h.private_unique hp hs).symm
    · exact h₁ hc
  · exact h.locks_same (p := p) (q := .got k b) rfl (by simp [BufPc.locks]) fun _ _ _ => rfl

lemma TableInvariant.quiet_buf (h : TableInvariant s) (hp : (s.pc p).entry = some (k, b)) {v : Buf}
    (hkey : v.key = (s.buf b).key) (href : v.refcount = (s.buf b).refcount)
    (hu : q.uses = (s.pc p).uses) (he : q.entry = (s.pc p).entry) (hq : ∀ k b, q ≠ .allocated k b)
    (hlocks : ∀ r c, (update s.pc p q r).locks = some c → (update s.buf b v c).lock = some r) :
    TableInvariant ((s.setPc p q).setBuf b v) := by
  have hb := (h.held p k b hp).1
  refine h.quiet _ (p := p) (q := q) rfl rfl rfl hu he (fun k b hkb => absurd hkb (hq k b)) ?_ ?_ ?_ hlocks
  · intro x
    by_cases hx : x = b <;> simp [setBuf, setPc, hx, hkey]
  · intro x
    by_cases hx : x = b <;> simp [setBuf, setPc, hx, href]
  · intro x hx
    have hxb : x ≠ b := fun hxb => hx (hxb ▸ hb)
    simp [setBuf, setPc, hxb]

lemma TableInvariant.step_lock (h : TableInvariant s) (hp : s.pc p = .got k b)
    (hl : (s.buf b).lock = none) :
    TableInvariant ((s.setPc p (.locked k b)).setBuf b { s.buf b with lock := some p }) := by
  refine h.quiet_buf (by rw [hp]; rfl) rfl rfl (by rw [hp]; rfl) (by rw [hp]; rfl) (by simp) fun r c hr => ?_
  by_cases hrp : r = p
  · subst hrp
    simp only [update_self, BufPc.locks, Option.some.injEq] at hr
    subst hr
    simp
  · rw [update_of_ne hrp] at hr
    have hcb : c ≠ b := by
      rintro rfl
      exact h.lock_free hl hr
    rw [update_of_ne hcb, h.locks r c hr]

lemma TableInvariant.step_unlock (h : TableInvariant s) (hp : (s.pc p).entry = some (k, b))
    (hlock : (s.pc p).locks = some b) :
    TableInvariant ((s.setPc p (.unlocked k b)).setBuf b { s.buf b with lock := none }) := by
  refine h.quiet_buf hp rfl rfl (by rw [uses_of_entry hp]; rfl) (by rw [hp]; rfl) (by simp) fun r c hr => ?_
  by_cases hrp : r = p
  · subst hrp
    simp [BufPc.locks] at hr
  · rw [update_of_ne hrp] at hr
    have hcb : c ≠ b := by
      rintro rfl
      have h₁ := h.locks r c hr
      rw [h.locks p c hlock] at h₁
      exact hrp (Option.some.inj h₁).symm
    rw [update_of_ne hcb, h.locks r c hr]

lemma TableInvariant.step_data (h : TableInvariant s) (hp : (s.pc p).entry = some (k, b))
    {v : Buf} (hv : v.key = (s.buf b).key ∧ v.refcount = (s.buf b).refcount ∧
      v.lock = (s.buf b).lock) (hu : q.uses = (s.pc p).uses) (he : q.entry = (s.pc p).entry)
    (hl : q.locks = (s.pc p).locks) (hq : ∀ k b, q ≠ .allocated k b) :
    TableInvariant ((s.setPc p q).setBuf b v) := by
  refine h.quiet_buf hp hv.1 hv.2.1 hu he hq ?_
  apply h.locks_same (p := p) (q := q) (t := (s.setPc p q).setBuf b v) rfl fun c hc => hl ▸ hc
  intro r c _
  by_cases hx : c = b <;> simp [setBuf, setPc, hx, hv.2.2]

lemma TableInvariant.step_pc (h : TableInvariant s) (disk : ℕ → ℕ → UInt8)
    (hu : q.uses = (s.pc p).uses) (he : q.entry = (s.pc p).entry) (hl : q.locks = (s.pc p).locks)
    (hq : ∀ k b, q = .allocated k b → s.pc p = .allocated k b) :
    TableInvariant { s.setPc p q with disk := disk } := by
  apply h.quiet _ (p := p) (q := q)
  · rfl
  · rfl
  · rfl
  · exact hu
  · exact he
  · exact hq
  · exact fun _ => rfl
  · exact fun _ => rfl
  · exact fun _ _ => rfl
  · exact h.locks_same (p := p) (q := q) rfl (fun c hc => hl ▸ hc) fun _ _ _ => rfl

end CacheState

namespace Cache

open CacheState

variable {C : Cache} {s t : CacheState} {a : BufAction}

lemma table_step (h : TableInvariant s) (hs : C.Step s a t) : TableInvariant t := by
  cases hs with
  | hit hp hl =>
    obtain ⟨hb, hk⟩ := lookup_some hl
    exact h.refer (fun x => mem_front hb) (nodup_front h.nodup) (length_front hb) hb hk
      (by rw [hp]; rfl)
  | reuse hp hl hv _ => exact h.step_reuse hp hl hv
  | evict hp _ hv _ => exact h.step_evict hp hv
  | miss hp _ _ | valid hp _ | write hp _ | nomem hp | writeError hp _ =>
    exact h.step_pc _ (by rw [hp]; rfl) (by rw [hp]; rfl) (by rw [hp]; rfl) (by simp)
  | alloc hp hb hf => exact h.step_alloc hp hb hf
  | insert hp hl => exact h.step_insert hp hl
  | dup hp hl =>
    obtain ⟨hb, hk⟩ := lookup_some hl
    exact h.refer (fun x => Iff.rfl) h.nodup rfl hb hk (by rw [hp]; rfl)
  | lock hp hl => exact h.step_lock hp hl
  | fill hp _ _ | fillError hp _ | modify hp =>
    exact h.step_data (by rw [hp]; rfl) ⟨rfl, rfl, rfl⟩ (by rw [hp]; rfl) (by rw [hp]; rfl)
      (by rw [hp]; rfl) (by simp)
  | unlock hp =>
    rcases hp with hp | hp
    · exact h.step_unlock (by rw [hp]; rfl) (by rw [hp]; rfl)
    · exact h.step_unlock (by rw [hp]; rfl) (by rw [hp]; rfl)
  | unref hp => exact h.step_unref hp
  | @raw _ _ sec r _ =>
    have hsame := h.step_pc (p := 0) (q := s.pc 0) (s.putRegion r sec).disk rfl rfl rfl
      fun _ _ h => h
    rwa [setPc, update_eq_self] at hsame
  | invalidate =>
    apply h.quiet _ (p := 0) (q := s.pc 0)
    · rfl
    · rfl
    · exact (update_eq_self 0 s.pc).symm
    · rfl
    · rfl
    · exact fun _ _ h => h
    · intro b
      dsimp only
      split_ifs <;> rfl
    · intro b
      dsimp only
      split_ifs <;> rfl
    · intro b hb
      dsimp only
      rw [if_neg fun hc => hb hc.1]
    · intro r b hr
      dsimp only
      split_ifs <;> exact h.locks r b hr

theorem table_run (h : C.system.Reachable s) : TableInvariant s := by
  apply h.invariant
  · rintro s ⟨hlru, hcount, hpc⟩
    refine ⟨⟨?_, ?_, ?_, ?_⟩, ?_, ?_, ?_⟩
    · rw [hlru]
      exact List.nodup_nil
    · simp [hlru]
    · simp [hpc, BufPc.entry]
    · rw [hcount, hlru, List.length_nil]
    · simp [hlru, hpc]
    · simp [hpc]
    · simp [hpc, BufPc.locks]
  · intro s a t h hs
    exact table_step h hs

end Cache

end MyOS.Fs
