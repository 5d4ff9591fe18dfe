import MyOS.Fs.BufferCacheRuns

/-! The entries of the cache and the disk agree, unless a write changes a block behind its entry or
a buffer is released with data that no write has put on the disk. -/

namespace MyOS.Fs

open Library Function

namespace CacheState

def Clean (s : CacheState) (b : ℕ) : Prop :=
  b ∈ s.lru ∧ (s.buf b).valid = true ∧ ∀ p, (s.pc p).dirty ≠ some b

variable {s : CacheState} {p b x d : ℕ} {q : BufPc} {r : Region} {data : ℕ → UInt8}

lemma dirty_update (hq : q.dirty = (s.pc p).dirty) :
    (fun r => (update s.pc p q r).dirty) = fun r => (s.pc r).dirty := by
  funext r
  by_cases hr : r = p
  · rw [hr, update_self, hq]
  · rw [update_of_ne hr]

lemma putRegion_mem (h : r.Mem d x) : (s.putRegion r data).disk d x = data (x - r.base) := by
  obtain ⟨rfl, h₁, h₂⟩ := h
  simp [putRegion, h₁, h₂]

lemma putRegion_not_mem (h : ¬ r.Mem d x) : (s.putRegion r data).disk d x = s.disk d x := by
  by_cases hd : d = r.disk
  · subst hd
    have hx : ¬ (r.base ≤ x ∧ x < r.base + r.len) := fun hx => h ⟨rfl, hx⟩
    simp only [putRegion, update_self]
    rw [if_neg hx]
  · simp [putRegion, hd]

end CacheState

namespace Cache

open CacheState

variable (C : Cache)

def Matches (s : CacheState) (v : Buf) : Prop :=
  ∃ r, C.region v.key = some r ∧ ∀ x < r.len, v.data x = s.disk r.disk (r.base + x)

def Coherent (s : CacheState) : Prop :=
  ∀ b ∈ s.lru, (s.buf b).valid = true → (s.buf b).lock = none → C.Matches s (s.buf b)

/-- Writing `data` to a region changes no byte in the block of a clean entry other than `b`. -/
def Spares (s : CacheState) (b : Option ℕ) (r : Region) (data : ℕ → UInt8) : Prop :=
  ∀ c, s.Clean c → b ≠ some c → ∀ v, C.region (s.buf c).key = some v → ∀ x < v.len,
    r.Mem v.disk (v.base + x) → data (v.base + x - r.base) = s.disk v.disk (v.base + x)

/-- No write changes a block behind a clean entry of the cache, and a buffer whose data was changed
is released only after a write of it has succeeded. -/
def Careful (s : CacheState) : BufAction → Prop
  | .write p => ∀ k b dirty r, s.pc p = .held k b dirty → C.region (s.buf b).key = some r →
      C.Spares s (some b) r (s.buf b).data
  | .writeError p left => ∀ k b dirty r, s.pc p = .held k b dirty →
      C.region (s.buf b).key = some r → C.Spares s (some b) r left
  | .raw bd lba sec => ∀ r, C.request bd lba 1 = some r → C.Spares s none r sec
  | .unlock p => ∀ k b, s.pc p ≠ .held k b true
  | _ => True

variable {C} {s t : CacheState} {a : BufAction} {p b : ℕ} {q : BufPc} {r : Region}
  {data : ℕ → UInt8}

lemma Matches.congr {u v : Buf} (h : C.Matches s u) (hdisk : t.disk = s.disk) (hk : v.key = u.key)
    (hd : v.data = u.data) : C.Matches t v := by
  obtain ⟨r, hr, hx⟩ := h
  refine ⟨r, by rw [hk, hr], ?_⟩
  rw [hd, hdisk]
  exact hx

lemma Matches.spared {c : ℕ} {o : Option ℕ} (h : C.Matches s (s.buf c)) (hc : s.Clean c)
    (ho : o ≠ some c) (hs : C.Spares s o r data) : C.Matches (s.putRegion r data) (s.buf c) := by
  obtain ⟨v, hv, hx⟩ := h
  refine ⟨v, hv, ?_⟩
  intro x hlt
  by_cases hm : r.Mem v.disk (v.base + x)
  · rw [putRegion_mem hm, hs c hc ho v hv x hlt hm, hx x hlt]
  · rw [putRegion_not_mem hm, hx x hlt]

lemma Matches.written {v : Buf} (hr : C.region v.key = some r) :
    C.Matches (s.putRegion r v.data) v := by
  refine ⟨r, hr, ?_⟩
  intro x hx
  rw [putRegion_mem ⟨rfl, by omega, by omega⟩, Nat.add_sub_cancel_left]

lemma clean_frame (t : CacheState) (h : ∀ b, s.Clean b → C.Matches s (s.buf b))
    (hdisk : t.disk = s.disk)
    (hpc : t.pc = update s.pc p q) (hq : q.dirty = (s.pc p).dirty)
    (hb : ∀ b ∈ t.lru, (t.buf b).valid = true → b ∈ s.lru ∧ (s.buf b).valid = true ∧
      (t.buf b).key = (s.buf b).key ∧ (t.buf b).data = (s.buf b).data) :
    ∀ b, t.Clean b → C.Matches t (t.buf b) := by
  rintro b ⟨hm, hv, hd⟩
  obtain ⟨h₁, h₂, h₃, h₄⟩ := hb b hm hv
  apply (h b ⟨h₁, h₂, ?_⟩).congr hdisk h₃ h₄
  intro o
  have hd := hd o
  rw [hpc] at hd
  rw [← congrFun (dirty_update (p := p) (q := q) hq) o]
  exact hd

lemma clean_other {c : ℕ} (hp : (s.pc p).locks = some b) (hc : c ≠ b)
    (hd : ∀ o, (update s.pc p q o).dirty ≠ some c) (o : ℕ) :
    (s.pc o).dirty ≠ some c := by
  by_cases ho : o = p
  · intro hdo
    rw [ho] at hdo
    cases hpc : s.pc p with
    | held k e d => cases d <;> simp_all [BufPc.dirty, BufPc.locks]
    | _ => simp [hpc, BufPc.dirty] at hdo
  · rw [← update_of_ne ho q s.pc]
    exact hd o

lemma clean_write (h : ∀ b, s.Clean b → C.Matches s (s.buf b))
    (hp : (s.pc p).locks = some b) (hs : C.Spares s (some b) r data)
    (hb : q.dirty = some b ∨ C.Matches ((s.setPc p q).putRegion r data) (s.buf b)) :
    ∀ c, ((s.setPc p q).putRegion r data).Clean c →
      C.Matches ((s.setPc p q).putRegion r data) (s.buf c) := by
  rintro c ⟨hm, hv, hd⟩
  by_cases hc : c = b
  · subst hc
    rcases hb with hb | hb
    · exact absurd hb (by simpa [putRegion, setPc] using hd p)
    · exact hb
  · have hclean : s.Clean c := ⟨hm, hv, clean_other hp hc hd⟩
    exact (h c hclean).spared hclean (by simpa using Ne.symm hc) hs

lemma clean_data (h : ∀ b, s.Clean b → C.Matches s (s.buf b)) (hp : (s.pc p).locks = some b)
    {v : Buf} (hb : q.dirty = some b ∨ v.valid = false ∨ C.Matches s v) :
    ∀ c, ((s.setPc p q).setBuf b v).Clean c →
      C.Matches ((s.setPc p q).setBuf b v) (((s.setPc p q).setBuf b v).buf c) := by
  rintro c ⟨hm, hv, hd⟩
  by_cases hc : c = b
  · subst hc
    have hself : ((s.setPc p q).setBuf c v).buf c = v := by simp [setBuf, setPc]
    rw [hself] at hv ⊢
    rcases hb with hb | hb | hb
    · exact absurd hb (by simpa [setBuf, setPc] using hd p)
    · rw [hb] at hv
      cases hv
    · exact hb.congr rfl rfl rfl
  · have hother : ((s.setPc p q).setBuf b v).buf c = s.buf c := by simp [setBuf, setPc, hc]
    rw [hother] at hv ⊢
    exact (h c ⟨hm, hv, clean_other hp hc hd⟩).congr rfl rfl rfl

lemma clean_setBuf (h : ∀ b, s.Clean b → C.Matches s (s.buf b)) {v : Buf} {lru : List ℕ}
    {count : ℕ} (hq : q.dirty = (s.pc p).dirty)
    (hlru : ∀ c ∈ lru, c ∈ s.lru ∨ c = b ∧ v.valid = false)
    (hv : v.valid = false ∨ v.valid = (s.buf b).valid ∧ v.key = (s.buf b).key ∧
      v.data = (s.buf b).data) :
    ∀ c, { (s.setPc p q).setBuf b v with lru := lru, count := count }.Clean c →
      C.Matches { (s.setPc p q).setBuf b v with lru := lru, count := count }
        (((s.setPc p q).setBuf b v).buf c) := by
  apply clean_frame _ h
  · rfl
  · rfl
  · exact hq
  intro c hc hcv
  by_cases hcb : c = b
  · subst hcb
    simp only [setBuf, setPc, update_self] at hcv ⊢
    rcases hv with hv | ⟨hv, hk, hd⟩
    · rw [hv] at hcv
      cases hcv
    · rcases hlru c hc with hm | ⟨-, hf⟩
      · exact ⟨hm, hv ▸ hcv, hk, hd⟩
      · rw [hf] at hcv
        cases hcv
  · have hother : ((s.setPc p q).setBuf b v).buf c = s.buf c := by simp [setBuf, setPc, hcb]
    dsimp only at hcv ⊢
    rw [hother] at hcv ⊢
    rcases hlru c hc with hm | ⟨he, -⟩
    · exact ⟨hm, hcv, rfl, rfl⟩
    · exact absurd he hcb

lemma clean_step (ht : TableInvariant s) (h : ∀ b, s.Clean b → C.Matches s (s.buf b))
    (hc : C.Careful s a) (hs : C.Step s a t) : ∀ b, t.Clean b → C.Matches t (t.buf b) := by
  cases hs with
  | hit hp hl =>
    obtain ⟨hb, -⟩ := lookup_some hl
    exact clean_setBuf h (by rw [hp]; rfl) (fun c hc => .inl ((mem_front hb).1 hc)) (.inr ⟨rfl, rfl, rfl⟩)
  | reuse hp _ hv _ =>
    obtain ⟨hb, -⟩ := victim_some hv
    exact clean_setBuf h (by rw [hp]; rfl) (fun c hc => .inl ((mem_front hb).1 hc)) (.inl rfl)
  | evict hp _ _ _ =>
    exact clean_frame _ h rfl rfl (by rw [hp]; rfl) fun c hc hv => ⟨List.mem_of_mem_erase hc, hv, rfl, rfl⟩
  | miss hp | nomem hp | valid hp =>
    exact clean_frame _ h rfl rfl (by rw [hp]; rfl) fun c hc hv => ⟨hc, hv, rfl, rfl⟩
  | alloc hp => exact clean_setBuf h (by rw [hp]; rfl) (fun c hc => .inl hc) (.inl rfl)
  | insert hp _ =>
    refine clean_frame _ h rfl rfl (by rw [hp]; rfl) fun c hc hv => ?_
    rcases List.mem_cons.1 hc with hcb | hc
    · have hnew := (ht.fresh _ _ _ hp).2.2.1
      simp only [setPc] at hv
      rw [hcb, hnew] at hv
      cases hv
    · exact ⟨hc, hv, rfl, rfl⟩
  | dup hp | lock hp | unref hp =>
    exact clean_setBuf h (by rw [hp]; rfl) (fun c hc => .inl hc) (.inr ⟨rfl, rfl, rfl⟩)
  | @fill _ k b r hp _ hr =>
    have hk := (ht.held _ k b (by rw [hp]; rfl)).2
    refine clean_data h (by rw [hp]; rfl) (.inr (.inr ⟨r, hk ▸ hr, fun x hx => ?_⟩))
    simp only [getRegion]
    rw [if_pos hx]
  | fillError hp hv => exact clean_data h (by rw [hp]; rfl) (.inr (.inl hv))
  | modify hp => exact clean_data h (by rw [hp]; rfl) (.inl rfl)
  | @write _ _ b _ r hp hr =>
    exact clean_write (b := b) h (by rw [hp]; rfl) (hc _ _ _ _ hp hr)
      (.inr (Matches.written (s := s.setPc _ _) hr))
  | @writeError _ _ b _ r _ hp hr =>
    exact clean_write (b := b) h (by rw [hp]; rfl) (hc _ _ _ _ hp hr) (.inl rfl)
  | @unlock _ k b dirty hp =>
    refine clean_setBuf h ?_ (fun c hc => .inl hc) (.inr ⟨rfl, rfl, rfl⟩)
    rcases hp with hp | hp
    · cases dirty with
      | false =>
        rw [hp]
        rfl
      | true => exact absurd hp (hc k b)
    · rw [hp]
      rfl
  | @raw _ _ _ r hr =>
    intro c hclean
    exact (h c hclean).spared hclean (by simp) (hc r hr)
  | invalidate =>
    apply clean_frame _ (p := 0) (q := s.pc 0) h
    · rfl
    · exact (update_eq_self 0 s.pc).symm
    · rfl
    intro c hc hv
    dsimp only at hv ⊢
    split_ifs at hv ⊢
    exact ⟨hc, hv, rfl, rfl⟩

lemma clean_run (h : (C.system.guarded C.Careful).Reachable s) :
    TableInvariant s ∧ ∀ b, s.Clean b → C.Matches s (s.buf b) := by
  induction h with
  | @init s h =>
    refine ⟨table_run (C := C) (.init h), ?_⟩
    rintro b ⟨hb, -⟩
    rw [h.1] at hb
    cases hb
  | step a _ hs ih => exact ⟨table_step ih.1 hs.2, clean_step ih.1 ih.2 hs.1 hs.2⟩

theorem bcache_coherent (C : Cache) (s : CacheState) :
    (C.system.Reachable s → s.Table) ∧
      ((C.system.guarded C.Careful).Reachable s → s.Table ∧ C.Coherent s) := by
  refine ⟨fun h => (table_run h).toTable, ?_⟩
  intro h
  obtain ⟨ht, hm⟩ := clean_run h
  refine ⟨ht.toTable, ?_⟩
  intro b hb hv hl
  apply hm b ⟨hb, hv, ?_⟩
  intro p hp
  have hlocks : (s.pc p).locks = some b := by
    cases hpc : s.pc p with
    | held k c d => cases d <;> simp_all [BufPc.dirty, BufPc.locks]
    | _ => simp [hpc, BufPc.dirty] at hp
  exact ht.lock_free hl hlocks

section OneBlock

def oneDisk : Cache := ⟨fun _ => ⟨0, .disk 8⟩⟩

def firstBlock : BufKey := ⟨0, 0, 512⟩

def zeroed : CacheState :=
  ⟨fun _ _ => 0, [], 0, fun _ => ⟨firstBlock, fun _ => 0, false, 0, none⟩, fun _ => .idle⟩

lemma reachable_next (a : BufAction) (h : (C.system.guarded C.Careful).Reachable s)
    (hc : C.Careful s a) (hs : C.Step s a t) : (C.system.guarded C.Careful).Reachable t :=
  .step a h ⟨hc, hs⟩

lemma fetched : ∃ s, (oneDisk.system.guarded oneDisk.Careful).Reachable s ∧ s.lru = [0] ∧
    (s.buf 0).key = firstBlock ∧ (s.buf 0).valid = true ∧ (s.buf 0).lock = none ∧
    (s.buf 0).data 0 = 0 := by
  have h₀ : (oneDisk.system.guarded oneDisk.Careful).Reachable zeroed :=
    .init ⟨rfl, rfl, fun _ => rfl⟩
  have h₁ := reachable_next (.bget 0 firstBlock) h₀ trivial (.miss rfl rfl (by decide))
  have h₂ := reachable_next (.alloc 0 0 fun _ => 0) h₁ trivial
    (.alloc (k := firstBlock) rfl (by decide) (by
      intro q l hq
      by_cases h : q = 0
      · subst h
        cases hq
      · simp [CacheState.setPc, h, zeroed] at hq))
  have h₃ := reachable_next (.insert 0) h₂ trivial (.insert (k := firstBlock) (b := 0) rfl rfl)
  have h₄ := reachable_next (.lock 0) h₃ trivial (.lock (k := firstBlock) (b := 0) rfl rfl)
  have h₅ := reachable_next (.fill 0) h₄ trivial
    (.fill (k := firstBlock) (b := 0) (r := ⟨0, 0, 512⟩) rfl rfl rfl)
  have h₆ := reachable_next (.unlock 0) h₅ (by
    intro k b hk
    cases hk) (.unlock (.inl (show _ = BufPc.held firstBlock 0 false from rfl)))
  exact ⟨_, h₆, rfl, rfl, rfl, rfl, rfl⟩

theorem bcache_coherent_fetched : ∃ s : CacheState, s.lru = [0] ∧ s.Table ∧ oneDisk.Coherent s := by
  obtain ⟨s, hs, hlru, -⟩ := fetched
  exact ⟨s, hlru, (bcache_coherent oneDisk s).2 hs⟩

theorem not_coherent_raw : ¬ ∀ (C : Cache) (s : CacheState), C.system.Reachable s →
    s.Table ∧ C.Coherent s := by
  intro h
  obtain ⟨s, hs, hlru, hk, hv, hl, hd⟩ := fetched
  have hr : oneDisk.request 0 0 1 = some ⟨0, 0, 512⟩ := rfl
  have hraw : oneDisk.system.Reachable (s.putRegion ⟨0, 0, 512⟩ fun _ => 1) :=
    .step (.raw 0 0 fun _ => 1) hs.of_guarded (.raw hr)
  obtain ⟨r, hr, hx⟩ := (h oneDisk _ hraw).2 0 (by simp [CacheState.putRegion, hlru]) hv hl
  have hkey : oneDisk.region firstBlock = some ⟨0, 0, 512⟩ := rfl
  rw [show ((s.putRegion ⟨0, 0, 512⟩ fun _ => 1).buf 0).key = firstBlock from hk, hkey] at hr
  cases hr
  have h₀ := hx 0 (by decide)
  rw [putRegion_mem ⟨rfl, by decide, by decide⟩] at h₀
  rw [show (s.putRegion ⟨0, 0, 512⟩ fun _ => 1).buf 0 = s.buf 0 from rfl, hd] at h₀
  cases h₀

end OneBlock

end Cache

end MyOS.Fs
