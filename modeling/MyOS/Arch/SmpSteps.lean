import MyOS.Arch.SmpFlush

/-! Every step keeps the CPUs wired, the requests on their way and what the TLBs cache. -/

namespace MyOS.Arch

open Library Function

variable {C : Type}

namespace Percpu.Wired

variable {s : Percpu C} {c : C}

lemma count (h : s.Wired) (hw : s.waking = some c) (ho : s.online c = true) :
    Percpu.Wired { s with ncpus := s.ncpus + 1, waking := none } := by
  obtain ⟨hcpu, hlt⟩ := h.woken c hw
  refine ⟨Nat.le_succ_of_le h.one_le, hlt, fun i d hd => ?_, h.here, fun i hi => ?_, h.running, by simp⟩
  · obtain ⟨hid, hnamed, hi⟩ := h.entry i d hd
    refine ⟨hid, hnamed, .inl ?_⟩
    change i < s.ncpus + 1
    omega
  · by_cases hin : i = s.ncpus
    · exact ⟨c, by rw [hin]; exact hcpu, ho⟩
    · have hi' : i < s.ncpus + 1 := hi
      exact h.counted i (by omega)

lemma giveUp (h : s.Wired) (hr : ∀ d, s.waking = some d → s.running d = false) :
    Percpu.Wired { s with cpus := update s.cpus s.ncpus none, waking := none } := by
  have hne : ∀ i d, update s.cpus s.ncpus none i = some d → i ≠ s.ncpus ∧ s.cpus i = some d := by
    intro i d hd
    by_cases hi : i = s.ncpus
    · simp [hi] at hd
    · exact ⟨hi, by simpa [hi] using hd⟩
  refine ⟨h.one_le, h.le_max, fun i d hd => ?_, fun d hd => ?_, fun i hi => ?_, h.running, by simp⟩
  · obtain ⟨hi, hd⟩ := hne i d hd
    obtain ⟨hid, hnamed, hlt | ⟨heq, -⟩⟩ := h.entry i d hd
    · exact ⟨hid, hnamed, .inl hlt⟩
    · exact absurd heq hi
  · have hcpu := h.here d hd
    have hid : s.id d ≠ s.ncpus := by
      intro hid
      obtain ⟨-, -, hlt | ⟨-, hw⟩⟩ := h.entry _ d hcpu
      · omega
      · simp [hr d hw] at hd
    simp [hid, hcpu]
  · obtain ⟨d, hd, ho⟩ := h.counted i hi
    exact ⟨d, by simp [hi.ne, hd], ho⟩

variable [DecidableEq C]

lemma start (h : s.Wired) (hw : s.waking = none) (hn : s.ncpus < maxCpus) (hc : s.named c = false) :
    Percpu.Wired { s with cpus := update s.cpus s.ncpus (some c)
                          id := update s.id c s.ncpus
                          named := update s.named c true
                          waking := some c } := by
  have hrun : ∀ d, s.running d = true → d ≠ c := by
    rintro d hd rfl
    simp [h.named hd] at hc
  have hlt : ∀ i d, s.cpus i = some d → i < s.ncpus := by
    intro i d hd
    obtain ⟨-, -, hlt | ⟨-, hwd⟩⟩ := h.entry i d hd
    · exact hlt
    · simp [hw] at hwd
  have hname : ∀ i d, s.cpus i = some d → d ≠ c := by
    rintro i d hd rfl
    simp [(h.entry i d hd).2.1] at hc
  refine ⟨h.one_le, h.le_max, fun i d hd => ?_, fun d hd => ?_, fun i hi => ?_, h.running, fun d hd => ?_⟩
  · by_cases hi : i = s.ncpus
    · subst hi
      have hdc : c = d := by simpa using hd
      subst hdc
      simp
    · have hd' : s.cpus i = some d := by simpa [hi] using hd
      obtain ⟨hid, hnamed, -⟩ := h.entry i d hd'
      have hdc := hname i d hd'
      exact ⟨by simp [hdc, hid], by simp [hdc, hnamed], .inl (hlt i d hd')⟩
  · have hdc := hrun d hd
    have hid := h.here d hd
    have hne : s.id d ≠ s.ncpus := (hlt _ d hid).ne
    simp [hdc, hne, hid]
  · obtain ⟨d, hd, ho⟩ := h.counted i hi
    exact ⟨d, by simp [hi.ne, hd], ho⟩
  · have hdc : c = d := by simpa using hd
    exact ⟨by simp [hdc], hn⟩

lemma comeUp (h : s.Wired) (hw : s.waking = some c) :
    Percpu.Wired { s with running := update s.running c true } := by
  refine ⟨h.one_le, h.le_max, h.entry, fun d hd => ?_, h.counted, fun d hd => ?_, h.woken⟩
  · by_cases hdc : d = c
    · subst hdc
      obtain ⟨hcpu, -⟩ := h.woken d hw
      obtain ⟨hid, -⟩ := h.entry _ d hcpu
      change s.cpus (s.id d) = some d
      rw [hid, hcpu]
    · exact h.here d (by simpa [hdc] using hd)
  · by_cases hdc : d = c
    · simp [hdc]
    · simpa [hdc] using h.running d hd

lemma goOnline (h : s.Wired) (hc : s.running c = true) :
    Percpu.Wired { s with online := update s.online c true } := by
  refine ⟨h.one_le, h.le_max, h.entry, h.here, fun i hi => ?_, fun d hd => ?_, h.woken⟩
  · obtain ⟨d, hd, ho⟩ := h.counted i hi
    refine ⟨d, hd, ?_⟩
    by_cases hdc : d = c
    · simp [hdc]
    · simpa [hdc] using ho
  · by_cases hdc : d = c
    · rw [hdc]
      exact hc
    · exact h.running d (by simpa [hdc] using hd)

end Percpu.Wired

namespace Smp

variable {s t : Smp C} {a : SmpAction C} {c : C} {k : Shootdown} {i j n me r : ℕ} {l : SendPc}

lemma sending_of_preemptible (hk : k.Preemptible) (hc : s.call c = some k) : s.sending c = none := by
  rw [sending_of_call hc, hk.sending]

lemma Mail.boot {P : Percpu C} (h : s.Mail) (hw : s.toPercpu.Wired) (hn : s.ncpus ≤ P.ncpus)
    (hid : ∀ d, s.running d = true → P.id d = s.id d)
    (hrun : ∀ d, s.running d = true → P.running d = true)
    (hon : ∀ d, s.online d = true → P.online d = true) : Mail { s with toPercpu := P } :=
  h.quiet hn (fun d hd => hid d (h.running_of_busy hw hd)) rfl rfl rfl rfl rfl (fun _ _ _ => rfl)
    (fun d hd => hon d (h.call d hd)) (fun d hd => hrun d (h.handler d hd)) h.ready

variable [DecidableEq C]

lemma Step.wired (hs : Step s a t) (h : s.toPercpu.Wired) (ha : s.Answers a) : t.toPercpu.Wired := by
  cases hs with
  | next =>
    unfold Smp.next
    split_ifs <;> exact h
  | scan =>
    unfold Smp.scan
    split_ifs
    · exact h
    · split <;> exact h
  | answer =>
    unfold Smp.answer
    split_ifs <;> exact h
  | start hb hw hn hc => exact h.start hw hn hc
  | comeUp => exact h.comeUp ha
  | goOnline hc => exact h.goOnline hc
  | count hb hw ho => exact h.count hw ho
  | giveUp => exact h.giveUp ha
  | _ => exact h

namespace Mail

lemma setCall (h : s.Mail) {o : Option Shootdown} (hon : s.online c = true)
    (hs : s.sending c = none) (ho : o.bind Shootdown.sending = none) : (s.setCall c o).Mail := by
  refine h.quiet le_rfl (fun _ _ => rfl) ?_ rfl rfl rfl rfl ?_ ?_ h.handler h.ready
  · rw [sending_setCall, ho, ← hs, update_eq_self]
  · intro d x hd
    refine update_of_ne ?_ _ _
    rintro rfl
    rw [hs] at hd
    simp at hd
  · intro d hd
    by_cases hdc : d = c
    · rw [hdc]
      exact hon
    · exact h.call d (by simpa [Smp.setCall, hdc] using hd)

lemma setHandler (h : s.Mail) {o : Option InboxPc} (hc : s.running c = true)
    (ht : o.bind InboxPc.taken = s.taken c) : (s.setHandler c o).Mail := by
  refine h.quiet le_rfl (fun _ _ => rfl) rfl ?_ rfl rfl rfl (fun _ _ _ => rfl) h.call ?_ h.ready
  · rw [taken_setHandler, ht, update_eq_self]
  · intro d hd
    by_cases hdc : d = c
    · rw [hdc]
      exact hc
    · exact h.handler d (by simpa [Smp.setHandler, hdc] using hd)

lemma scan (h : s.Mail) (hh : s.handler c = some { s := j }) :
    (s.scan c j).Mail := by
  have hrun : s.running c = true := h.handler c (by simp [hh])
  have ht : s.taken c = none := by simp [Smp.taken, hh, InboxPc.taken]
  unfold Smp.scan
  split_ifs
  · exact h.setHandler hrun ht.symm
  · cases hm : s.inbox (s.id c) j with
    | none => exact h.setHandler hrun ht.symm
    | some r => exact h.take hh hm

lemma answer (h : s.Mail) (hw : s.toPercpu.Wired) {q : TlbReq}
    (hh : s.handler c = some { s := j, req := some (r, n) }) : (s.answer c j r n q).Mail := by
  have hrun : s.running c = true := h.handler c (by simp [hh])
  unfold Smp.answer
  split_ifs
  · have hmem : (s.setTlb c (pageOf q.virt n) none).Mail := h.same rfl rfl rfl rfl rfl rfl h.ready
    refine hmem.setHandler hrun ?_
    simp [Smp.taken, Smp.setTlb, hh, InboxPc.taken]
  · exact h.answered hw hh

end Mail

lemma Step.mail (hs : Step s a t) (h : s.Mail) (hw : s.toPercpu.Wired) : t.Mail := by
  cases hs with
  | map | unmap | fill | evict | setInts => exact h.same rfl rfl rfl rfl rfl rfl h.ready
  | enter ho hc => exact h.setCall ho (by simp [sending, hc]) rfl
  | @invlpg c k i hc hh hk =>
    have hmem : (s.setTlb c (k.page i) none).Mail := h.same rfl rfl rfl rfl rfl rfl h.ready
    refine hmem.setCall (h.call c (by simp [hc])) ?_ rfl
    exact sending_of_preemptible (.inr ⟨i, hk⟩) hc
  | @check c k i hc hh hk =>
    refine h.setCall (h.call c (by simp [hc])) ?_ ?_
    · exact sending_of_preemptible (.inr ⟨i, hk⟩) hc
    · split_ifs <;> rfl
  | pushOff hc hh hk => exact h.pushOff hc hk
  | next hc hk => exact h.next hc hk
  | post hc hk => exact h.post hw hc hk
  | ret hc hh hk hr hq => exact h.ret hc hk hr hq
  | @leave c k hc hh hk =>
    refine h.setCall (h.call c (by simp [hc])) ?_ rfl
    simp [sending_of_call hc, Shootdown.sending, hk]
  | poll hc hh => exact h.setHandler hc (by simp [Smp.taken, hh, InboxPc.taken])
  | scan hh => exact h.scan hh
  | answer hh => exact h.answer hw hh
  | @preempt c k hc hh hk =>
    have hcall : (s.setCall c none).Mail :=
      h.setCall (h.call c (by simp [hc])) (sending_of_preemptible hk hc) rfl
    refine hcall.same rfl rfl rfl rfl rfl rfl fun k' hk' => ?_
    obtain rfl | hk' := List.mem_cons.1 hk'
    · exact hk
    · exact h.ready k' hk'
  | @dispatch c k ho hc hh hk =>
    have hcall : (s.setCall c (some k)).Mail :=
      h.setCall ho (by simp [sending, hc]) (h.ready k hk).sending
    exact hcall.same rfl rfl rfl rfl rfl rfl fun k' hk' => h.ready k' (List.mem_of_mem_erase hk')
  | @start c hb hw' hn hc =>
    refine h.boot hw le_rfl (fun d hd => ?_) (fun _ hd => hd) fun _ hd => hd
    refine update_of_ne ?_ _ _
    rintro rfl
    simp [hw.named hd] at hc
  | @comeUp c =>
    refine h.boot hw le_rfl (fun _ _ => rfl) (fun d hd => ?_) fun _ hd => hd
    by_cases hdc : d = c <;> simp [hdc]
    simpa [hdc] using hd
  | @goOnline c =>
    refine h.boot hw le_rfl (fun _ _ => rfl) (fun _ hd => hd) fun d hd => ?_
    by_cases hdc : d = c <;> simp [hdc]
    simpa [hdc] using hd
  | count => exact h.boot hw (Nat.le_succ _) (fun _ _ => rfl) (fun _ hd => hd) fun _ hd => hd
  | giveUp => exact h.boot hw le_rfl (fun _ _ => rfl) (fun _ hd => hd) fun _ hd => hd

lemma Step.flushed (hs : Step s a t) (h : s.Flushed) (hw : s.toPercpu.Wired) (hm : s.Mail)
    (ha : s.Looks a) : t.Flushed := by
  cases hs with
  | @map p =>
    refine h.memory rfl rfl rfl rfl rfl (Nat.le_succ _) (fun q g hg => ?_) fun _ _ _ hg => .inl hg
    by_cases hq : q = p
    · right
      have hg' : s.clock = g := by simpa [Smp.map, hq] using hg
      exact ⟨hg', hg' ▸ Nat.lt_succ_self _⟩
    · left
      simpa [Smp.map, hq] using hg
  | @unmap p =>
    refine h.memory rfl rfl rfl rfl rfl le_rfl (fun q g hg => .inl ?_) fun _ _ _ hg => .inl hg
    by_cases hq : q = p
    · simp [Smp.unmap, hq] at hg
    · simpa [Smp.unmap, hq] using hg
  | @fill c p g hc hg =>
    refine h.memory rfl rfl rfl rfl rfl le_rfl (fun q g hg => .inl hg) fun d q g' hd => ?_
    by_cases hdq : d = c ∧ q = p
    · obtain ⟨rfl, rfl⟩ := hdq
      have hgg : g = g' := by simpa [setTlb] using hd
      exact .inr ⟨hc, hgg ▸ hg⟩
    · left
      rw [← hd]
      unfold setTlb
      by_cases hdc : d = c
      · have hqp : q ≠ p := fun hq => hdq ⟨hdc, hq⟩
        simp [hdc, hqp]
      · simp [hdc]
  | evict =>
    exact h.memory rfl rfl rfl rfl rfl le_rfl (fun q g hg => .inl hg) fun _ _ _ hg =>
      .inl (setTlb_none hg)
  | setInts =>
    exact h.memory rfl rfl rfl rfl rfl le_rfl (fun q g hg => .inl hg) fun _ _ _ hg => .inl hg
  | @enter c virt pages ho hc hh hp =>
    refine h.caller rfl rfl h.ready rfl rfl rfl rfl rfl fun k hk => ?_
    cases hk
    refine Flushed.callOk_of_preemptible (.inr ⟨0, rfl⟩) ⟨le_rfl, fun i hi g hg => ?_⟩ clean_zero
    have hnone := hp i hi
    rw [show s.pte (pageOf virt i) = some g from hg] at hnone
    simp at hnone
  | invlpg hc hh hk => exact h.invlpg hc hk
  | check hc hh hk hi => exact h.check ha hc hk hi
  | pushOff hc hh hk => exact h.pushOff hc hk
  | next hc hk => exact h.next hw hm ha hc hk
  | post hc hk => exact h.post hw hm hc hk
  | ret hc hh hk hr hq => exact h.ret hm hc hk hr hq
  | leave => exact h.caller rfl rfl h.ready rfl rfl rfl rfl rfl fun k hk => by simp at hk
  | poll hc hh => exact h.idle fun x hx => by simp [hh] at hx
  | scan hh => exact h.scan hw hm hh
  | answer hh hr => exact h.answer hm hh hr
  | @preempt c k hc =>
    refine h.caller (o := none) rfl rfl (fun k' hk' => ?_) rfl rfl rfl rfl rfl fun k hk => by simp at hk
    obtain rfl | hk' := List.mem_cons.1 hk'
    · exact (h.call c k' hc).since
    · exact h.ready k' hk'
  | @dispatch c k ho hc hh hk =>
    refine h.caller rfl rfl (fun k' hk' => h.ready k' (List.mem_of_mem_erase hk')) rfl rfl rfl rfl rfl
      fun k' hk' => ?_
    cases hk'
    exact Flushed.callOk_of_preemptible (hm.ready k hk) (h.ready k hk) ha
  | @start c hb hw' hn hc =>
    refine h.boot (fun _ hd => hd) fun d hd => ?_
    refine update_of_ne ?_ _ _
    rintro rfl
    simp [hw.named hd] at hc
  | @comeUp c =>
    refine h.boot (fun d hd => ?_) fun _ _ => rfl
    by_cases hdc : d = c <;> simp [hdc]
    simpa [hdc] using hd
  | goOnline | count | giveUp => exact h.boot (fun _ hd => hd) fun _ _ => rfl

end Smp

end MyOS.Arch
