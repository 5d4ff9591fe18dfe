import MyOS.Arch.SmpMail

/-! What the TLBs cache of the pages of a call: a CPU has invalidated them, or it has yet to be asked, or the
request is on its way. -/

namespace MyOS.Arch

open Library Function

namespace Smp

variable {C : Type} {s t : Smp C} {c d : C} {k : Shootdown} {i j m me r n p g : ℕ} {l : SendPc}

def Since (s : Smp C) (k : Shootdown) : Prop :=
  k.since ≤ s.clock ∧ ∀ i < k.pages.toNat, ∀ g, s.pte (k.page i) = some g → k.since ≤ g

structure CallOk (s : Smp C) (c : C) (k : Shootdown) : Prop where
  since : s.Since k
  here : s.Clean c k k.flushed
  there : ∀ me r l, k.pc = .off me r l → ∀ d, s.running d = true →
    s.Clean d k k.pages.toNat ∨ ¬ l.Past (s.id d) ∨ s.inbox (s.id d) me = some r ∨
      ∃ n, s.handler d = some { s := me, req := some (r, n) } ∧ s.Clean d k n
  done : k.pc = .done → ∀ d, s.running d = true → s.Clean d k k.pages.toNat

structure Flushed (s : Smp C) : Prop where
  pte : ∀ p g, s.pte p = some g → g < s.clock
  down : ∀ d, s.running d = false → ∀ p, s.tlb d p = none
  call : ∀ c k, s.call c = some k → s.CallOk c k
  ready : ∀ k ∈ s.ready, s.Since k

lemma Clean.all (h : s.Clean c k n) (hn : k.pages.toNat ≤ n) (m : ℕ) : s.Clean c k m :=
  fun i _ hi => h i (hi.trans_le hn) hi

lemma clean_zero : s.Clean c k 0 := fun i hi => absurd hi (Nat.not_lt_zero i)

lemma clean_of_down (h : ∀ p, s.tlb d p = none) : s.Clean d k n := by
  rintro i - - ⟨g, hg, -⟩
  rw [h] at hg
  simp at hg

lemma setTlb_none [DecidableEq C] (hg : (s.setTlb c p none).tlb d j = some g) : s.tlb d j = some g := by
  unfold setTlb at hg
  by_cases hdc : d = c
  · subst hdc
    by_cases hj : j = p
    · subst hj
      simp at hg
    · simpa [hj] using hg
  · simpa [hdc] using hg

namespace Flushed

lemma memory (h : s.Flushed) (hcpu : t.toPercpu = s.toPercpu) (hcall : t.call = s.call)
    (hready : t.ready = s.ready) (hhandler : t.handler = s.handler) (hinbox : t.inbox = s.inbox)
    (hclock : s.clock ≤ t.clock)
    (hpte : ∀ p g, t.pte p = some g → s.pte p = some g ∨ s.clock = g ∧ g < t.clock)
    (htlb : ∀ d p g, t.tlb d p = some g →
      s.tlb d p = some g ∨ s.running d = true ∧ s.pte p = some g) : t.Flushed := by
  have hsince : ∀ k, s.Since k → t.Since k := by
    rintro k ⟨hk, hp⟩
    refine ⟨hk.trans hclock, fun i hi g hg => ?_⟩
    obtain hg | ⟨rfl, -⟩ := hpte _ g hg
    · exact hp i hi g hg
    · exact hk
  have hclean : ∀ d k n, s.Since k → s.Clean d k n → t.Clean d k n := by
    rintro d k n ⟨-, hp⟩ hc i hn hi ⟨g, hg, hlt⟩
    obtain hg | ⟨-, hg⟩ := htlb d _ g hg
    · exact hc i hn hi ⟨g, hg, hlt⟩
    · exact absurd hlt (not_lt.2 (hp i hi g hg))
  constructor
  · intro p g hg
    obtain hg | ⟨-, hlt⟩ := hpte p g hg
    · exact (h.pte p g hg).trans_le hclock
    · exact hlt
  · intro d hd p
    rw [hcpu] at hd
    by_contra hne
    obtain ⟨g, hg⟩ := Option.ne_none_iff_exists'.1 hne
    obtain hg | ⟨hrun, -⟩ := htlb d p g hg
    · rw [h.down d hd p] at hg
      simp at hg
    · simp [hd] at hrun
  · intro c k hk
    rw [hcall] at hk
    have hok := h.call c k hk
    refine ⟨hsince k hok.since, hclean c k _ hok.since hok.here, fun me r l hpc d hd => ?_,
      fun hpc d hd => ?_⟩
    · rw [hcpu] at hd ⊢
      rw [hinbox, hhandler]
      obtain hd | hd | hd | ⟨n, hn, hd⟩ := hok.there me r l hpc d hd
      · exact .inl (hclean d k _ hok.since hd)
      · exact .inr (.inl hd)
      · exact .inr (.inr (.inl hd))
      · exact .inr (.inr (.inr ⟨n, hn, hclean d k n hok.since hd⟩))
    · rw [hcpu] at hd
      exact hclean d k _ hok.since (hok.done hpc d hd)
  · intro k hk
    rw [hready] at hk
    exact hsince k (h.ready k hk)

lemma requests (h : s.Flushed) (hcpu : t.toPercpu = s.toPercpu) (hcall : t.call = s.call)
    (hready : t.ready = s.ready) (hclock : t.clock = s.clock) (hpte : t.pte = s.pte) (htlb : t.tlb = s.tlb)
    (hinbox : ∀ c k me r l d, s.call c = some k → k.pc = .off me r l → s.running d = true →
      s.inbox (s.id d) me = some r → s.Clean d k k.pages.toNat ∨ t.inbox (s.id d) me = some r ∨
        ∃ n, t.handler d = some { s := me, req := some (r, n) } ∧ s.Clean d k n)
    (hhandler : ∀ c k me r l d n, s.call c = some k → k.pc = .off me r l →
      s.handler d = some { s := me, req := some (r, n) } → s.Clean d k n →
        s.Clean d k k.pages.toNat ∨ ∃ n, t.handler d = some { s := me, req := some (r, n) } ∧
          s.Clean d k n) : t.Flushed := by
  have hsince : ∀ k, s.Since k → t.Since k := by
    intro k hk
    unfold Since
    rw [hclock, hpte]
    exact hk
  have hclean : ∀ d k n, s.Clean d k n → t.Clean d k n := by
    intro d k n hk
    unfold Clean Stale
    rw [htlb]
    exact hk
  constructor
  · rw [hclock, hpte]
    exact h.pte
  · rw [hcpu, htlb]
    exact h.down
  · intro c k hk
    rw [hcall] at hk
    have hok := h.call c k hk
    refine ⟨hsince k hok.since, hclean c k _ hok.here, fun me r l hpc d hd => ?_, fun hpc d hd => ?_⟩
    · rw [hcpu] at hd ⊢
      obtain hd' | hd' | hd' | ⟨n, hn, hd'⟩ := hok.there me r l hpc d hd
      · exact .inl (hclean d k _ hd')
      · exact .inr (.inl hd')
      · obtain hd' | hd' | ⟨n, hn, hd'⟩ := hinbox c k me r l d hk hpc hd hd'
        · exact .inl (hclean d k _ hd')
        · exact .inr (.inr (.inl hd'))
        · exact .inr (.inr (.inr ⟨n, hn, hclean d k n hd'⟩))
      · obtain hd' | ⟨n, hn, hd'⟩ := hhandler c k me r l d n hk hpc hn hd'
        · exact .inl (hclean d k _ hd')
        · exact .inr (.inr (.inr ⟨n, hn, hclean d k n hd'⟩))
    · rw [hcpu] at hd
      exact hclean d k _ (hok.done hpc d hd)
  · intro k hk
    rw [hready] at hk
    exact hsince k (h.ready k hk)

lemma boot {P : Percpu C} (h : s.Flushed) (hrun : ∀ d, s.running d = true → P.running d = true)
    (hid : ∀ d, s.running d = true → P.id d = s.id d) : Flushed { s with toPercpu := P } := by
  have hclean : ∀ d k n, s.running d ≠ true → s.Clean d k n := fun d k n hd =>
    clean_of_down (h.down d (Bool.not_eq_true _ ▸ hd))
  constructor
  · exact h.pte
  · intro d hd
    apply h.down d
    by_contra hne
    rw [hrun d (by simpa using hne)] at hd
    simp at hd
  · intro c k hk
    have hok := h.call c k hk
    refine ⟨hok.since, hok.here, fun me r l hpc d _ => ?_, fun hpc d _ => ?_⟩
    · by_cases hd : s.running d = true
      · have hthere := hok.there me r l hpc d hd
        rw [← hid d hd] at hthere
        exact hthere
      · exact .inl (hclean d k _ hd)
    · by_cases hd : s.running d = true
      · exact hok.done hpc d hd
      · exact hclean d k _ hd
  · exact h.ready

lemma callOk_of_preemptible (hk : k.Preemptible) (hs : s.Since k) (hc : s.Clean c k k.flushed) :
    s.CallOk c k := by
  refine ⟨hs, hc, fun me r l hpc => ?_, fun hpc => ?_⟩
  · obtain hk | ⟨i, hk⟩ := hk <;> simp [hk] at hpc
  · obtain hk | ⟨i, hk⟩ := hk <;> simp [hk] at hpc

variable [DecidableEq C]

lemma caller (h : s.Flushed) (hcpu : t.toPercpu = s.toPercpu) {o : Option Shootdown}
    (hcall : t.call = update s.call c o) (hready : ∀ k ∈ t.ready, s.Since k)
    (hhandler : t.handler = s.handler) (hinbox : t.inbox = s.inbox) (hclock : t.clock = s.clock)
    (hpte : t.pte = s.pte) (htlb : t.tlb = s.tlb) (ho : ∀ k, o = some k → s.CallOk c k) :
    t.Flushed := by
  have hsince : ∀ k, s.Since k → t.Since k := by
    intro k hk
    unfold Since
    rw [hclock, hpte]
    exact hk
  have hclean : ∀ d k n, s.Clean d k n → t.Clean d k n := by
    intro d k n hk
    unfold Clean Stale
    rw [htlb]
    exact hk
  have hok : ∀ d k, s.CallOk d k → t.CallOk d k := by
    intro d k hk
    refine ⟨hsince k hk.since, hclean d k _ hk.here, fun me r l hpc d' hd' => ?_, fun hpc d' hd' => ?_⟩
    · rw [hcpu] at hd' ⊢
      rw [hinbox, hhandler]
      obtain hd | hd | hd | ⟨n, hn, hd⟩ := hk.there me r l hpc d' hd'
      · exact .inl (hclean d' k _ hd)
      · exact .inr (.inl hd)
      · exact .inr (.inr (.inl hd))
      · exact .inr (.inr (.inr ⟨n, hn, hclean d' k n hd⟩))
    · rw [hcpu] at hd'
      exact hclean d' k _ (hk.done hpc d' hd')
  constructor
  · rw [hclock, hpte]
    exact h.pte
  · rw [hcpu, htlb]
    exact h.down
  · intro d k hk
    rw [hcall] at hk
    by_cases hdc : d = c
    · subst hdc
      rw [update_self] at hk
      exact hok d k (ho k hk)
    · rw [update_of_ne hdc] at hk
      exact hok d k (h.call d k hk)
  · exact fun k hk => hsince k (hready k hk)

lemma invlpg (h : s.Flushed) (hc : s.call c = some k) (hk : k.pc = .flush i) :
    ((s.setTlb c (k.page i) none).setPc c k (.flush (i + 1))).Flushed := by
  have hok := h.call c k hc
  have hmem : (s.setTlb c (k.page i) none).Flushed := by
    refine h.memory rfl rfl rfl rfl rfl le_rfl (fun p g hg => .inl hg) fun d p g hg => .inl ?_
    exact setTlb_none hg
  refine hmem.caller rfl rfl h.ready rfl rfl rfl rfl rfl fun k' hk' => ?_
  cases hk'
  refine callOk_of_preemptible (.inr ⟨i + 1, rfl⟩) hok.since fun j hj hjp => ?_
  have hflushed : k.flushed = i := by simp [Shootdown.flushed, hk]
  rintro ⟨g, hg, hlt⟩
  by_cases hji : j = i
  · subst hji
    exact absurd hg (by simp [setTlb, Shootdown.page])
  · have hj' : j < k.flushed := by
      have : j < i + 1 := hj
      omega
    exact hok.here j hj' hjp ⟨g, setTlb_none hg, hlt⟩

lemma check (h : s.Flushed) (ha : s.Looks (.check c)) (hc : s.call c = some k) (hk : k.pc = .flush i)
    (hi : k.pages.toNat ≤ i) : (s.check c k).Flushed := by
  have hok := h.call c k hc
  have hclean : ∀ n, s.Clean c k n := by
    intro n
    have hflushed : k.flushed = i := by simp [Shootdown.flushed, hk]
    exact hok.here.all (hflushed ▸ hi) n
  refine h.caller rfl rfl h.ready rfl rfl rfl rfl rfl fun k' hk' => ?_
  cases hk'
  split_ifs with hn
  · refine ⟨hok.since, hclean _, fun me r l hpc => by simp at hpc, fun _ d hd => ?_⟩
    by_cases hdc : d = c
    · rw [hdc]
      exact hclean _
    · exact ha hn k hc d hd hdc
  · exact callOk_of_preemptible (.inl rfl) hok.since (hclean _)

lemma pushOff (h : s.Flushed) (hc : s.call c = some k) (hk : k.pc = .counted) :
    (s.pushOff c k).Flushed := by
  have hok := h.call c k hc
  have hclean : s.Clean c k k.pages.toNat := by
    have hflushed : k.flushed = k.pages.toNat := by simp [Shootdown.flushed, hk]
    exact hflushed ▸ hok.here
  refine h.caller rfl rfl h.ready rfl rfl rfl rfl rfl fun k' hk' => ?_
  cases hk'
  refine ⟨hok.since, hclean, fun me r l hpc d _ => .inr (.inl ?_), fun hpc => by simp at hpc⟩
  simp only [ShootPc.off.injEq] at hpc
  rw [← hpc.2.2]
  exact Nat.not_lt_zero _

lemma advance (h : s.Flushed) (hc : s.call c = some k) (hk : k.pc = .off me r l) (l' : SendPc)
    (ht : t.toPercpu = s.toPercpu) (hcall : t.call = (s.setPc c k (.off me r l')).call)
    (hready : t.ready = s.ready) (hhandler : t.handler = s.handler) (hinbox : t.inbox = s.inbox)
    (hclock : t.clock = s.clock) (hpte : t.pte = s.pte) (htlb : t.tlb = s.tlb)
    (hp : ∀ d, s.running d = true → l'.Past (s.id d) → ¬ l.Past (s.id d) →
      s.Clean d k k.pages.toNat ∨ s.inbox (s.id d) me = some r) : t.Flushed := by
  have hok := h.call c k hc
  have hflushed : k.flushed = k.pages.toNat := by simp [Shootdown.flushed, hk]
  have hclean : s.Clean c k k.pages.toNat := hflushed ▸ hok.here
  refine h.caller ht hcall (by rw [hready]; exact h.ready) hhandler hinbox hclock hpte htlb fun k' hk' => ?_
  cases hk'
  refine ⟨hok.since, hclean, fun me' r' l₁ hpc d hd => ?_, fun hpc => by simp at hpc⟩
  simp only [ShootPc.off.injEq] at hpc
  obtain ⟨rfl, rfl, rfl⟩ := hpc
  obtain hd' | hd' | hd' | hd' := hok.there _ _ _ hk d hd
  · exact .inl hd'
  · by_cases hl' : l'.Past (s.id d)
    · obtain hd' | hd' := hp d hd hl' hd'
      · exact .inl hd'
      · exact .inr (.inr (.inl hd'))
    · exact .inr (.inl hl')
  · exact .inr (.inr (.inl hd'))
  · exact .inr (.inr (.inr hd'))

lemma next (h : s.Flushed) (hw : s.toPercpu.Wired) (hm : s.Mail) (ha : s.Looks (.next c))
    (hc : s.call c = some k) (hk : k.pc = .off me r (.loop i)) : (s.next c k me r i).Flushed := by
  have hflushed : k.flushed = k.pages.toNat := by simp [Shootdown.flushed, hk]
  have hclean : s.Clean c k k.pages.toNat := hflushed ▸ (h.call c k hc).here
  have hsc := sending_of_pc hc hk
  unfold Smp.next
  split_ifs with hn hskip
  · refine h.advance hc hk .wait rfl rfl rfl rfl rfl rfl rfl rfl fun d hd _ hd' => .inl ?_
    have hge : i ≤ s.id d := not_lt.1 hd'
    exact ha k me r i hc hk hn d hd (hn.trans hge)
  · refine h.advance hc hk (.loop (i + 1)) rfl rfl rfl rfl rfl rfl rfl rfl fun d hd hlt hd' => .inl ?_
    have hid : s.id d = i := by
      have h1 : s.id d < i + 1 := hlt
      have h2 : ¬ s.id d < i := hd'
      omega
    obtain hme | hoff := hskip
    · have hdc : d = c := by
        apply hw.id_inj hd (hm.running_of_sending hw hsc)
        rw [hid, hme, hm.me c me r _ hsc]
      rw [hdc]
      exact hclean
    · obtain ⟨d', hd', ho⟩ := hw.counted i (not_le.1 hn)
      simp [onlineAt, hd', ho] at hoff
  · exact h.advance hc hk (.post i) rfl rfl rfl rfl rfl rfl rfl rfl fun d _ hlt hd' => absurd hlt hd'

lemma post (h : s.Flushed) (hw : s.toPercpu.Wired) (hm : s.Mail) (hc : s.call c = some k)
    (hk : k.pc = .off me r (.post i)) : (s.post c k me r i).Flushed := by
  have hfree := hm.slot_free hw (sending_of_pc hc hk)
  have hslot : (s.setSlot i me (some r)).Flushed := by
    refine h.requests rfl rfl rfl rfl rfl rfl (fun c' k' me' r' l d _ _ _ hin => .inr (.inl ?_))
      fun c' k' me' r' l d n _ _ hh hcl => .inr ⟨n, hh, hcl⟩
    rw [setSlot_inbox, if_neg, hin]
    rintro ⟨hid, rfl⟩
    rw [hid, hfree] at hin
    simp at hin
  refine hslot.advance (l := .post i) hc hk (.loop (i + 1)) rfl rfl rfl rfl rfl rfl rfl rfl
    fun d _ hlt hd' => .inr ?_
  have hid : s.id d = i := by
    have h1 : s.id d < i + 1 := hlt
    have h2 : ¬ s.id d < i := hd'
    omega
  rw [setSlot_inbox, if_pos ⟨hid, rfl⟩]

lemma ret (h : s.Flushed) (hm : s.Mail) (hc : s.call c = some k) (hk : k.pc = .off me r .wait)
    {q : TlbReq} (hr : s.frames r = some q) (hq : q.pending = 0) : (s.ret c k r).Flushed := by
  have hok := h.call c k hc
  have hflushed : k.flushed = k.pages.toNat := by simp [Shootdown.flushed, hk]
  have hclean : s.Clean c k k.pages.toNat := hflushed ▸ hok.here
  have hnone : ∀ i, ¬ s.Owes r i := by
    obtain ⟨q', hq', -, -, hnum⟩ := hm.frame c k me r _ hc hk
    rw [hr] at hq'
    rw [← Option.some.inj hq', hq] at hnum
    exact fun i => hnum.eq_zero i
  refine h.caller rfl rfl h.ready rfl rfl rfl rfl rfl fun k' hk' => ?_
  cases hk'
  refine ⟨hok.since, hclean, fun me' r' l hpc => by simp at hpc, fun _ d hd => ?_⟩
  obtain hd' | hd' | hd' | ⟨n, hn, -⟩ := hok.there me r .wait hk d hd
  · exact hd'
  · exact absurd trivial hd'
  · exact absurd (.inl ⟨me, hd'⟩) (hnone (s.id d))
  · refine absurd (.inr (.inl ⟨d, me, rfl, ?_⟩)) (hnone (s.id d))
    simp [taken, hn, InboxPc.taken]

lemma idle (h : s.Flushed) {o : Option InboxPc} (hh : ∀ x, s.handler c = some x → x.req = none) :
    (s.setHandler c o).Flushed := by
  refine h.requests rfl rfl rfl rfl rfl rfl (fun c' k' me' r' l d _ _ _ hin => .inr (.inl hin))
    fun c' k' me' r' l d n _ _ hd hcl => .inr ⟨n, ?_, hcl⟩
  have hdc : d ≠ c := by
    rintro rfl
    simpa using hh _ hd
  simp only [setHandler]
  rw [update_of_ne hdc, hd]

lemma scan (h : s.Flushed) (hw : s.toPercpu.Wired) (hm : s.Mail) (hh : s.handler c = some { s := j }) :
    (s.scan c j).Flushed := by
  have hreq : ∀ x, s.handler c = some x → x.req = none := by
    intro x hx
    rw [hh] at hx
    rw [← Option.some.inj hx]
  unfold Smp.scan
  split_ifs with hn
  · exact h.idle hreq
  · cases hin : s.inbox (s.id c) j with
    | none => exact h.idle hreq
    | some r =>
      have hrun : s.running c = true := hm.handler c (by simp [hh])
      refine h.requests rfl rfl rfl rfl rfl rfl (fun c' k' me' r' l d _ _ hd hin' => .inr ?_)
        fun c' k' me' r' l d n _ _ hd hcl => .inr ⟨n, ?_, hcl⟩
      · by_cases hslot : s.id d = s.id c ∧ me' = j
        · obtain ⟨hid, rfl⟩ := hslot
          obtain rfl := hw.id_inj hd hrun hid
          rw [hin'] at hin
          refine .inr ⟨0, ?_, clean_zero⟩
          rw [Option.some.inj hin]
          exact update_self _ _ _
        · refine .inl ?_
          have hset : (s.setSlot (s.id c) j none).inbox (s.id d) me' = some r' := by
            rw [setSlot_inbox, if_neg hslot, hin']
          exact hset
      · have hdc : d ≠ c := by
          rintro rfl
          simpa using hreq _ hd
        simp only [setHandler]
        rw [update_of_ne hdc]
        exact hd

lemma answer (h : s.Flushed) (hm : s.Mail) {q : TlbReq}
    (hh : s.handler c = some { s := j, req := some (r, n) }) (hr : s.frames r = some q) :
    (s.answer c j r n q).Flushed := by
  -- the frame is that of the call that waits for this answer
  have hframe : ∀ c' k' me' l, s.call c' = some k' → k'.pc = .off me' r l →
      q.virt = k'.virt ∧ q.pages = k'.pages := by
    intro c' k' me' l hk' hpc
    obtain ⟨q', hq', hv, hps, -⟩ := hm.frame c' k' me' r l hk' hpc
    rw [hr] at hq'
    rw [Option.some.inj hq']
    exact ⟨hv, hps⟩
  unfold Smp.answer
  split_ifs with hn
  · have hmem : (s.setTlb c (pageOf q.virt n) none).Flushed :=
      h.memory rfl rfl rfl rfl rfl le_rfl (fun p g hg => .inl hg) fun d p g hg => .inl (setTlb_none hg)
    refine hmem.requests rfl rfl rfl rfl rfl rfl (fun c' k' me' r' l d _ _ _ hin => .inr (.inl hin))
      fun c' k' me' r' l d n' hk' hpc hd hcl => .inr ?_
    by_cases hdc : d = c
    · subst hdc
      have hd' : s.handler d = some { s := me', req := some (r', n') } := hd
      rw [hh] at hd'
      simp only [Option.some.injEq, InboxPc.mk.injEq, Prod.mk.injEq] at hd'
      obtain ⟨rfl, rfl, rfl⟩ := hd'
      refine ⟨n + 1, update_self _ _ _, fun i hi hip => ?_⟩
      by_cases hin : i = n
      · subst hin
        rintro ⟨g, hg, -⟩
        obtain ⟨hv, -⟩ := hframe c' k' j l hk' hpc
        simp [setTlb, Shootdown.page, hv] at hg
      · exact hcl i (by omega) hip
    · exact ⟨n', (update_of_ne hdc _ _).trans hd, hcl⟩
  · refine h.requests rfl rfl rfl rfl rfl rfl (fun c' k' me' r' l d _ _ _ hin => .inr (.inl hin))
      fun c' k' me' r' l d n' hk' hpc hd hcl => ?_
    by_cases hdc : d = c
    · subst hdc
      rw [hh] at hd
      simp only [Option.some.injEq, InboxPc.mk.injEq, Prod.mk.injEq] at hd
      obtain ⟨rfl, rfl, rfl⟩ := hd
      obtain ⟨-, hps⟩ := hframe c' k' j l hk' hpc
      rw [hps] at hn
      exact .inl (hcl.all (not_lt.1 hn) _)
    · exact .inr ⟨n', (update_of_ne hdc _ _).trans hd, hcl⟩

end Flushed

end Smp

end MyOS.Arch
