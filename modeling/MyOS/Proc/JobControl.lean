import MyOS.Proc.Delivery

/-! `SIGCONT` after a stop signal continues the process, unless it is sent between the critical section
that takes the stop signal and the one that stops the process. -/

namespace MyOS.Proc

open Library Function

namespace Task

variable {t : Task} {sig : ℕ}

def Exclusive (t : Task) : Prop := sigcont ∈ t.pending → Disjoint t.pending stopSignals

structure Continued (t : Task) : Prop where
  state : t.state ≠ .stopped
  pending : Disjoint t.pending stopSignals
  stopping : ∀ sig, t.place = .stopping sig → t.killed = true

lemma Exclusive.mono (h : t.Exclusive) {u : Task} (hs : u.pending ⊆ t.pending) : u.Exclusive :=
  fun hc => (h (hs hc)).mono_left hs

lemma signalSend_pending {q : Process} : (q.signalSend sig).pending =
    if ¬ q.Receives sig then q.pending
    else
      let base := if sig = sigcont then q.pending \ stopSignals
        else if defaultStop sig = true then q.pending.erase sigcont else q.pending
      if sig ∉ unblockable ∧ sig ∉ q.blocked ∧ q.Ignores sig then base else insert sig base := by
  have hc : defaultStop sigcont = false := by decide
  have hk : defaultStop sigkill = false := by decide
  have hck : sigcont ≠ sigkill := by decide
  unfold Process.signalSend Process.wake
  by_cases hr : q.Receives sig
  · rw [if_neg (not_not.2 hr), if_neg (not_not.2 hr)]
    dsimp only
    by_cases h1 : sig = sigkill
    · subst h1
      simp only [hk, hck.symm, if_true, if_false, Bool.false_eq_true]
      have hu : sigkill ∈ unblockable := by decide
      simp only [hu, not_true_eq_false, false_and, if_false]
      split_ifs <;> rfl
    · simp only [h1, if_false]
      by_cases h2 : sig = sigcont
      · subst h2
        simp only [hc, if_true, if_false, Bool.false_eq_true, Process.Ignores]
        split_ifs <;> rfl
      · simp only [h2, if_false]
        by_cases h3 : defaultStop sig = true
        · simp only [h3, if_true, Process.Ignores]
          split_ifs <;> rfl
        · simp only [h3, Bool.false_eq_true, if_false]
          split_ifs <;> rfl
  · rw [if_pos hr, if_pos hr]

lemma mem_stopSignals : sig ∈ stopSignals ↔ defaultStop sig = true := by
  simp [defaultStop]

lemma Exclusive.send (h : t.Exclusive) : (t.send sig).Exclusive := by
  have hcont : sigcont ∉ stopSignals := by decide
  change sigcont ∈ (t.signalSend sig).pending → Disjoint (t.signalSend sig).pending stopSignals
  rw [signalSend_pending]
  intro hc
  have hd := fun hm => Finset.disjoint_left.1 (h hm)
  rw [Finset.disjoint_left]
  intro k hk hks
  have hsig : sig ∈ stopSignals ↔ defaultStop sig = true := mem_stopSignals
  grind

lemma pending_send (hs : defaultStop sig = false) (h : Disjoint t.pending stopSignals) :
    Disjoint (t.signalSend sig).pending stopSignals := by
  rw [signalSend_pending]
  have hsig : sig ∉ stopSignals := by
    rw [mem_stopSignals, hs]
    simp
  rw [Finset.disjoint_left] at h ⊢
  intro k hk hks
  grind

lemma signalSend_not_stopped {q : Process} (h : q.state ≠ .stopped ∨ sig = sigcont ∧ q.Receives sig) :
    (q.signalSend sig).state ≠ .stopped := by
  simp only [Process.signalSend, Process.wake]
  grind

lemma Continued.send (h : t.job = some sigcont → t.Continued)
    (hc : sig = sigcont → t.Receives sig → ∀ k, t.place = .stopping k → t.killed = true)
    (hj : (t.send sig).job = some sigcont) : (t.send sig).Continued := by
  by_cases hr : t.Receives sig ∧ (sig = sigcont ∨ defaultStop sig = true)
  · have hcont : sig = sigcont := by
      have hjob : (t.send sig).job = some sig := if_pos hr
      exact Option.some.inj (hjob.symm.trans hj)
    subst hcont
    refine ⟨signalSend_not_stopped (.inr ⟨rfl, hr.1⟩), ?_, fun k hk => ?_⟩
    · change Disjoint (t.signalSend sigcont).pending stopSignals
      rw [signalSend_pending, if_neg (not_not.2 hr.1)]
      have hns : sigcont ∉ stopSignals := by decide
      rw [Finset.disjoint_left]
      intro k hk hks
      grind
    · exact signalSend_killed_of_killed _ (hc rfl hr.1 k hk)
  · have hjob : (t.send sig).job = t.job := if_neg hr
    have ht := h (hjob.symm.trans hj)
    by_cases hrec : t.Receives sig
    · have hs : defaultStop sig = false := by
        by_contra hs
        exact hr ⟨hrec, .inr (by simpa using hs)⟩
      exact ⟨signalSend_not_stopped (.inl ht.state), pending_send hs ht.pending, fun k hk =>
        signalSend_killed_of_killed _ (ht.stopping k hk)⟩
    · have hsame : t.signalSend sig = t.toProcess := if_pos hrec
      refine ⟨?_, ?_, fun k hk => ?_⟩
      · exact signalSend_not_stopped (.inl ht.state)
      · change Disjoint (t.signalSend sig).pending stopSignals
        rw [hsame]
        exact ht.pending
      · exact signalSend_killed_of_killed _ (ht.stopping k hk)

lemma nextSignal_mem (hk : t.killed = false) (h : t.nextSignal ≠ 0) : t.nextSignal ∈ t.pending := by
  unfold nextSignal at h ⊢
  rw [hk] at h ⊢
  simp only [Bool.false_eq_true, if_false] at h ⊢
  split_ifs at h ⊢ with h9
  · exact (Finset.mem_sdiff.1 h9).1
  · cases hm : (t.pending \ t.blocked).min with
    | top =>
      rw [hm] at h
      exact absurd rfl h
    | coe k =>
      exact (Finset.mem_sdiff.1 (Finset.mem_of_min hm)).1

lemma act_stopping {k : ℕ} (h : t.act sig = .stopping k) : k = sig ∧ defaultStop sig = true := by
  unfold act at h
  grind

lemma Continued.take (h : t.Continued) : t.take.Continued := by
  unfold Task.take
  split_ifs with h0
  · exact ⟨h.state, h.pending, fun _ hp => absurd hp (by simp)⟩
  · refine ⟨h.state, h.pending.mono_left (Finset.erase_subset _ _), fun k hp => ?_⟩
    obtain ⟨-, hs⟩ := act_stopping hp
    by_contra hk
    have hmem := nextSignal_mem (by simpa using hk) h0
    exact Finset.disjoint_left.1 h.pending hmem (mem_stopSignals.2 hs)

lemma Continued.of_place {l : DeliverPc} (h : t.Continued) (hl : ∀ k, l ≠ .stopping k) :
    Continued { t with place := l } :=
  ⟨h.state, h.pending, fun k hp => absurd hp (hl k)⟩

lemma Continued.of_state {st : ProcState} (h : t.Continued) (hst : st ≠ .stopped) :
    Continued { t with state := st } :=
  ⟨hst, h.pending, h.stopping⟩

lemma sigaction_pending {hd : SigHandler} {a : SigRest} :
    (t.sigaction sig hd a).pending ⊆ t.pending := by
  dsimp only [sigaction]
  split_ifs
  · exact Finset.erase_subset _ _
  · exact subset_rfl

lemma take_pending : t.take.pending ⊆ t.pending := by
  unfold take
  split_ifs
  · exact subset_rfl
  · exact Finset.erase_subset _ _

lemma sigprocmask_pending {how set : BitVec 64} : (t.sigprocmask how set).pending = t.pending := by
  unfold sigprocmask
  dsimp only
  split_ifs <;> rfl

lemma execReset_pending : (t.execReset sig).pending = t.pending := by
  unfold execReset
  split_ifs <;> rfl

lemma force_pending : (t.force sig).pending = insert sig t.pending := by
  unfold force
  dsimp only
  split_ifs <;> rfl

lemma exception_not_job (h : sig ∈ exceptionSignals) : sig ≠ sigcont ∧ sig ∉ stopSignals := by
  revert sig
  decide

end Task

section Runs

variable {s : DeliveryState} {p : ℕ} {a : DeliveryAction} {t : Task}

lemma Move.exclusive (h : Move s p a t) (hp : (s p).Exclusive) : t.Exclusive := by
  cases h with
  | send => exact hp.send
  | take => exact hp.mono Task.take_pending
  | sigaction => exact hp.mono Task.sigaction_pending
  | sigprocmask => exact hp.mono Task.sigprocmask_pending.subset
  | execReset => exact hp.mono Task.execReset_pending.subset
  | stop =>
    unfold Task.stopSelf
    split_ifs
    · exact hp.mono subset_rfl
    · exact hp.mono subset_rfl
  | force h hs =>
    obtain ⟨hc, hn⟩ := Task.exception_not_job hs
    intro hm
    rw [Task.force_pending] at hm ⊢
    rw [Finset.disjoint_insert_left]
    exact ⟨hn, hp (Finset.mem_of_mem_insert_of_ne hm hc.symm)⟩
  | alloc h hq =>
    unfold Task.child
    split_ifs
    · exact fun hm => absurd hm (by simp)
    · exact fun hm => absurd hm (by simp)
  | enter | check | resume | frame | frameFails | exit | sysExit | sigreturn | sigreturnFails
  | becomeUser | makeReady | free | reap | schedule | preempt | block | wake =>
    exact hp.mono subset_rfl

/-- No `SIGCONT` is sent to a process that has taken a stop signal and has not stopped yet. -/
def Timely (s : DeliveryState) (a : ℕ × DeliveryAction) : Prop :=
  a.2 = .send sigcont → (s a.1).Receives sigcont → ∀ sig, (s a.1).place = .stopping sig →
    (s a.1).killed = true

lemma Move.continued (h : Move s p a t) (hp : (s p).job = some sigcont → (s p).Continued)
    (ht : Timely s (p, a)) (hj : t.job = some sigcont) : t.Continued := by
  cases h with
  | send sig =>
    refine Task.Continued.send hp (fun hs hr => ?_) hj
    subst hs
    exact ht rfl hr
  | take =>
    have hjob : (s p).take.job = (s p).job := by
      unfold Task.take
      split_ifs <;> rfl
    exact (hp (hjob.symm.trans hj)).take
  | stop h =>
    have hjob : (s p).stopSelf.job = (s p).job := by
      unfold Task.stopSelf
      split_ifs <;> rfl
    have hc := hp (hjob.symm.trans hj)
    unfold Task.stopSelf
    rw [if_pos (hc.stopping _ h.2)]
    exact hc.of_place (by simp)
  | frame =>
    have hc := hp hj
    exact ⟨hc.state, hc.pending, fun k hk => absurd hk (by simp [Task.frame])⟩
  | sigaction =>
    have hc := hp hj
    exact ⟨hc.state, hc.pending.mono_left Task.sigaction_pending, hc.stopping⟩
  | sigprocmask =>
    unfold Task.sigprocmask at hj ⊢
    dsimp only at hj ⊢
    split_ifs at hj ⊢
    all_goals exact ⟨(hp hj).state, (hp hj).pending, (hp hj).stopping⟩
  | @force sig h hs =>
    have hjob : ((s p).force sig).job = (s p).job := by
      unfold Task.force
      dsimp only
      split_ifs <;> rfl
    have hc := hp (hjob.symm.trans hj)
    refine ⟨?_, ?_, fun k hk => ?_⟩
    · rw [Task.force_state]
      exact hc.state
    · rw [Task.force_pending, Finset.disjoint_insert_left]
      exact ⟨(Task.exception_not_job hs).2, hc.pending⟩
    · unfold Task.force at hk
      dsimp only at hk
      split_ifs at hk
  | execReset =>
    unfold Task.execReset at hj ⊢
    split_ifs at hj ⊢
    all_goals exact ⟨(hp hj).state, (hp hj).pending, (hp hj).stopping⟩
  | alloc h hq =>
    unfold Task.child at hj
    split_ifs at hj
  | check =>
    refine (hp hj).of_place fun k hk => ?_
    split_ifs at hk
  | enter | resume | frameFails | sysExit | sigreturnFails => exact (hp hj).of_place (by simp)
  | sigreturn | becomeUser => exact ⟨(hp hj).state, (hp hj).pending, (hp hj).stopping⟩
  | exit | makeReady | free | reap | schedule | preempt | block | wake =>
    exact (hp hj).of_state (by simp)

lemma exclusive_reachable (h : delivery.Reachable s) : ∀ p, (s p).Exclusive := by
  refine h.invariant (I := fun s => ∀ p, (s p).Exclusive) (fun s hi p hm => ?_)
    fun s a s' hs hst p => ?_
  · obtain hp | hp := hi p
    all_goals
      rw [hp] at hm
      cases hm
  · obtain ⟨t, hm, rfl⟩ := hst
    by_cases hp : p = a.1
    · subst hp
      rw [update_self]
      exact hm.exclusive (hs _)
    · rw [update_of_ne hp]
      exact hs p

lemma continued_reachable (h : (delivery.guarded Timely).Reachable s) :
    ∀ p, (s p).job = some sigcont → (s p).Continued := by
  refine h.invariant (I := fun s => ∀ p, (s p).job = some sigcont → (s p).Continued)
    (fun s hi p hj => ?_) fun s a s' hs hst p => ?_
  · obtain hp | hp := hi p
    all_goals
      rw [hp] at hj
      cases hj
  · obtain ⟨ht, t, hm, rfl⟩ := hst
    by_cases hp : p = a.1
    · subst hp
      rw [update_self]
      exact hm.continued (hs _) ht
    · rw [update_of_ne hp]
      exact hs p

theorem sigcont_wins (s : DeliveryState) :
    (delivery.Reachable s → ∀ p, ¬ (sigcont ∈ (s p).pending ∧ ∃ sig ∈ stopSignals,
      sig ∈ (s p).pending)) ∧
      ((delivery.guarded Timely).Reachable s → ∀ p, (s p).job = some sigcont →
        (s p).state ≠ .stopped) := by
  refine ⟨fun h p ⟨hc, sig, hs, hm⟩ => ?_, fun h p hj => (continued_reachable h p hj).state⟩
  exact Finset.disjoint_left.1 (exclusive_reachable h p hc) hm hs

end Runs

section Example

theorem sigcont_wins_ready : ∃ s, (delivery.guarded Timely).Reachable s ∧
    (s 1).job = some sigcont ∧ (s 1).state ≠ .stopped := by
  have h0 : (delivery.guarded Timely).Reachable idleFirst := by
    refine .init fun p => ?_
    by_cases hp : p = 0
    · exact .inr (if_pos hp)
    · exact .inl (if_neg hp)
  have h1 := System.Reachable.step (1, .alloc 0) h0
    ⟨nofun, _, .alloc rfl ⟨rfl, rfl⟩, rfl⟩
  have h2 := System.Reachable.step (1, .becomeUser) h1
    ⟨nofun, _, .becomeUser (by rfl), rfl⟩
  have h3 := System.Reachable.step (1, .makeReady) h2
    ⟨nofun, _, .makeReady (by rfl), rfl⟩
  have h4 := System.Reachable.step (1, .send sigtstp) h3
    ⟨fun h => absurd h (by simp [sigtstp, sigcont]), _, .send sigtstp, rfl⟩
  have h5 := System.Reachable.step (1, .send sigcont) h4
    ⟨fun _ _ k hk => absurd hk (by simp [Task.send, Task.child, idleFirst]), _, .send sigcont, rfl⟩
  exact ⟨_, h5, by decide, (sigcont_wins _).2 h5 1 (by decide)⟩

theorem not_sigcont_wins : ∃ s, delivery.Reachable s ∧ (s 1).job = some sigcont ∧
    (s 1).state = .stopped := by
  have h1 := Move.reach running_reachable (.send sigtstp)
  have h2 := Move.reach h1 (.enter ⟨by decide, rfl⟩ (by decide))
  have h3 := Move.reach h2 (.check ⟨by decide, rfl⟩)
  have h4 := Move.reach h3 (.take ⟨by decide, by rfl⟩)
  have h5 := Move.reach h4 (.send sigcont)
  have h6 := Move.reach h5 (Move.stop ⟨by decide, by rfl⟩)
  exact ⟨_, h6, by decide, by decide⟩

end Example

end MyOS.Proc
