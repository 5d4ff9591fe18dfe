import MyOS.Proc.LifecycleStock

/-! Numbers, parents, and the zombies that were reaped. -/

namespace MyOS.Proc

open Library Function

namespace Life

variable {C : Type} {s t : Life C} {c : C} {x : Ctx C} {p q : Slot}

structure Family (s : Life C) : Prop where
  lt : ∀ q, s.st q ≠ .unused → (s.procs q).pid < s.nextPid
  inj : ∀ p q, s.st p ≠ .unused → s.st q ≠ .unused → (s.procs p).pid = (s.procs q).pid → p = q
  parent : ∀ p q, s.st q ≠ .unused → (s.procs q).parent = some (.proc p) →
    (s.st p).Alive ∧ (s.procs q).ppid = some (s.procs p).pid
  logged : ∀ e ∈ s.reaped, e.pid < s.nextPid
  fresh : ∀ e ∈ s.reaped, ∀ q, s.st q ≠ .unused → s.st q ≠ .dead → (s.procs q).pid ≠ e.pid
  nodup : (s.reaped.map Reaped.pid).Nodup
  waiter : ∀ e ∈ s.reaped, ∀ n, e.waiter = some n → e.ppid = some n

section Kin

variable [DecidableEq C]

lemma kin_zombify {n : ℕ} {w : Bool} (i : Slot) : ((s.zombify c p n w).procs i).pid = (s.procs i).pid ∧
    ((s.zombify c p n w).procs i).ppid = (s.procs i).ppid ∧
    ∀ x, ((s.zombify c p n w).procs i).parent = some x →
      (s.procs i).parent = some x ∧ (s.st i ≠ .unused → x ≠ .proc p) := by
  obtain ⟨hpid, hppid, hparent⟩ := (sameKin_setState.trans (sameKin_tellParent (p := p) (w := w)) :
    ((s.setProc p { s.procs p with exitStatus := n }).orphan p).SameKin _) i
  have hkin := sameKin_setProc (s := s) (q := p) (o := { s.procs p with exitStatus := n }) rfl rfl rfl i
  have hst : ((s.setProc p { s.procs p with exitStatus := n }).procs i).state = s.st i := by
    change (s.setProc p { s.procs p with exitStatus := n }).st i = _
    rw [st_setProc]
    exact congrFun (update_eq_self p s.st) i
  have horphan : (((s.setProc p { s.procs p with exitStatus := n }).orphan p).procs i).pid = (s.procs i).pid ∧
      (((s.setProc p { s.procs p with exitStatus := n }).orphan p).procs i).ppid = (s.procs i).ppid ∧
      ∀ x, (((s.setProc p { s.procs p with exitStatus := n }).orphan p).procs i).parent = some x →
        (s.procs i).parent = some x ∧ (s.st i ≠ .unused → x ≠ .proc p) := by
    simp only [orphan]
    split_ifs with h
    · exact ⟨hkin.1, hkin.2.1, fun x hx => by simp at hx⟩
    · refine ⟨hkin.1, hkin.2.1, fun x hx => ⟨hkin.2.2 ▸ hx, ?_⟩⟩
      rintro hu rfl
      exact h ⟨hst ▸ hu, hx⟩
  refine ⟨hpid.trans horphan.1, hppid.trans horphan.2.1, fun x hx => horphan.2.2 x ?_⟩
  rw [← hparent]
  exact hx

end Kin

namespace Family

lemma congr (h : s.Family) (hnext : t.nextPid = s.nextPid) (hreaped : t.reaped = s.reaped)
    (hpid : ∀ i, (t.procs i).pid = (s.procs i).pid) (hppid : ∀ i, (t.procs i).ppid = (s.procs i).ppid)
    (hparent : ∀ i x, (t.procs i).parent = some x → (s.procs i).parent = some x)
    (hst : ∀ i, t.st i ≠ .unused → s.st i ≠ .unused)
    (hdead : ∀ i, t.st i ≠ .unused → t.st i ≠ .dead → s.st i ≠ .dead)
    (halive : ∀ p i, t.st i ≠ .unused → (t.procs i).parent = some (.proc p) → (s.st p).Alive →
      (t.st p).Alive) : t.Family := by
  constructor
  · intro q hq
    rw [hpid, hnext]
    exact h.lt q (hst q hq)
  · intro p q hp hq hpq
    rw [hpid, hpid] at hpq
    exact h.inj p q (hst p hp) (hst q hq) hpq
  · intro p q hq hpar
    obtain ⟨hal, hpp⟩ := h.parent p q (hst q hq) (hparent q _ hpar)
    exact ⟨halive p q hq hpar hal, by rw [hppid, hpid, hpp]⟩
  · rw [hreaped, hnext]
    exact h.logged
  · intro e he q hq hd
    rw [hreaped] at he
    rw [hpid]
    exact h.fresh e he q (hst q hq) (hdead q hq hd)
  · rw [hreaped]
    exact h.nodup
  · rw [hreaped]
    exact h.waiter

lemma alter (h : s.Family) (hnext : t.nextPid = s.nextPid) (hreaped : t.reaped = s.reaped)
    (hkin : s.SameKin t) (hst : ∀ q, t.st q = s.st q ∨ (s.st q).Alive ∧ (t.st q).Alive) : t.Family := by
  have hsame : ∀ i o, ¬ ProcState.Alive o → s.st i = o → t.st i = o := by
    rintro i o ho rfl
    exact (hst i).resolve_right fun hal => ho hal.1
  refine h.congr hnext hreaped (fun i => (hkin i).1) (fun i => (hkin i).2.1)
    (fun i x hx => (hkin i).2.2 ▸ hx) (fun i hi hu => hi ?_) (fun i _ hi hd => hi ?_) fun p i _ _ hal => ?_
  · exact hsame i _ (by simp [ProcState.Alive]) hu
  · exact hsame i _ (by simp [ProcState.Alive]) hd
  · obtain hs | hs := hst p
    · rwa [hs]
    · exact hs.2

lemma calm (h : s.Family) (hc : s.Calm t) : t.Family :=
  h.alter hc.nextPid hc.reaped hc.kin fun q => (hc.st q).imp_right And.left

lemma settle (h : s.Family) {o : ProcState} (hnext : t.nextPid = s.nextPid) (hreaped : t.reaped = s.reaped)
    (hkin : s.SameKin t) (hst : t.st = update s.st q o) (hq : s.st q = .embryo ∨ s.st q = .dead)
    (ho : s.st q = .dead → o = .unused) : t.Family := by
  have hself : t.st q = o := by rw [hst, update_self]
  have hother : ∀ i, i ≠ q → t.st i = s.st i := by
    intro i hi
    rw [hst, update_of_ne hi]
  refine h.congr hnext hreaped (fun i => (hkin i).1) (fun i => (hkin i).2.1)
    (fun i x hx => (hkin i).2.2 ▸ hx) (fun i hi => ?_) (fun i hi _ hd => ?_) fun p i _ _ hal => ?_
  · by_cases hiq : i = q
    · subst hiq
      obtain hq | hq := hq <;> simp [hq]
    · rwa [hother i hiq] at hi
  · by_cases hiq : i = q
    · subst hiq
      rw [hself] at hi
      exact hi (ho hd)
    · rename_i hd'
      rw [hother i hiq] at hd'
      exact hd' hd
  · have hpq : p ≠ q := by
      rintro rfl
      obtain hq | hq := hq <;> simp [hq, ProcState.Alive] at hal
    rwa [hother p hpq]

lemma mark (h : s.Family) {o : Option ℕ} (hq : s.st q = .zombie)
    (ho : ∀ n, o = some n → (s.procs q).ppid = some n) : (s.markDead q o).Family := by
  have hkin : s.SameKin (s.markDead q o) := sameKin_setState
  have hst : (s.markDead q o).st = update s.st q .dead := st_markDead
  have hself : (s.markDead q o).st q = .dead := by rw [hst, update_self]
  have hother : ∀ i, i ≠ q → (s.markDead q o).st i = s.st i := by
    intro i hi
    rw [hst, update_of_ne hi]
  have hunused : ∀ i, (s.markDead q o).st i ≠ .unused → s.st i ≠ .unused := by
    intro i hi
    by_cases hiq : i = q
    · simp [hiq, hq]
    · rwa [hother i hiq] at hi
  have hnew : (s.procs q).pid ∉ s.reaped.map Reaped.pid := by
    intro hmem
    obtain ⟨e, he, hpid⟩ := List.mem_map.1 hmem
    exact h.fresh e he q (by simp [hq]) (by simp [hq]) hpid.symm
  constructor
  · intro i hi
    rw [(hkin i).1]
    exact h.lt i (hunused i hi)
  · intro i j hi hj hij
    rw [(hkin i).1, (hkin j).1] at hij
    exact h.inj i j (hunused i hi) (hunused j hj) hij
  · intro i j hj hpar
    rw [(hkin j).2.2] at hpar
    obtain ⟨hal, hpp⟩ := h.parent i j (hunused j hj) hpar
    have hiq : i ≠ q := by
      rintro rfl
      simp [hq, ProcState.Alive] at hal
    rw [hother i hiq, (hkin j).2.1, (hkin i).1]
    exact ⟨hal, hpp⟩
  · intro e he
    obtain rfl | he := List.mem_cons.1 he
    · exact h.lt q (by simp [hq])
    · exact h.logged e he
  · intro e he i hi hd
    rw [(hkin i).1]
    have hiq : i ≠ q := by
      rintro rfl
      exact hd hself
    obtain rfl | he := List.mem_cons.1 he
    · exact fun hpid => hiq (h.inj i q (hunused i hi) (by simp [hq]) hpid)
    · rw [hother i hiq] at hd
      exact h.fresh e he i (hunused i hi) hd
  · exact List.nodup_cons.2 ⟨hnew, h.nodup⟩
  · intro e he n hn
    obtain rfl | he := List.mem_cons.1 he
    · exact ho n hn
    · exact h.waiter e he n hn

variable [DecidableEq C]

lemma alloc (h : s.Family) {k : Creation} (hx : ∀ p, x = .proc p → s.st p = .running)
    (hq : s.st q = .unused) : (s.alloc x q k).Family := by
  have hpid : ((s.alloc x q k).procs q).pid = s.nextPid := by simp [Life.alloc]
  have hparent : ((s.alloc x q k).procs q).parent = some x := by simp [Life.alloc]
  have hother : ∀ i, i ≠ q → (s.alloc x q k).procs i = s.procs i := fun i hi => update_of_ne hi ..
  have hst : ∀ i, i ≠ q → (s.alloc x q k).st i = s.st i := by
    intro i hi
    exact congrArg LifeProc.state (hother i hi)
  have hlt : ∀ i, i ≠ q → (s.alloc x q k).st i ≠ .unused → (s.procs i).pid < s.nextPid := by
    intro i hi hu
    rw [hst i hi] at hu
    exact h.lt i hu
  constructor
  · intro i hu
    change _ < s.nextPid + 1
    by_cases hi : i = q
    · rw [hi, hpid]
      exact Nat.lt_succ_self _
    · rw [hother i hi]
      exact Nat.lt_succ_of_lt (hlt i hi hu)
  · intro i j hiu hju hij
    by_cases hi : i = q
    · by_cases hj : j = q
      · rw [hi, hj]
      · rw [hi, hpid, hother j hj] at hij
        exact absurd hij.symm (hlt j hj hju).ne
    · by_cases hj : j = q
      · rw [hj, hpid, hother i hi] at hij
        exact absurd hij (hlt i hi hiu).ne
      · rw [hother i hi, hother j hj] at hij
        rw [hst i hi] at hiu
        rw [hst j hj] at hju
        exact h.inj i j hiu hju hij
  · intro i j hju hpar
    -- a parent is alive, so that it is not the new process
    have hiq : ∀ i, (s.st i).Alive → i ≠ q := by
      rintro i hal rfl
      simp [hq, ProcState.Alive] at hal
    by_cases hj : j = q
    · rw [hj, hparent] at hpar
      obtain rfl : x = .proc i := Option.some.inj hpar
      have hal : (s.st i).Alive := by
        rw [hx i rfl]
        exact .inr (.inl rfl)
      rw [hj, hst i (hiq i hal), hother i (hiq i hal)]
      exact ⟨hal, by simp [Life.alloc]⟩
    · rw [hst j hj] at hju
      rw [hother j hj] at hpar ⊢
      obtain ⟨hal, hpp⟩ := h.parent i j hju hpar
      rw [hst i (hiq i hal), hother i (hiq i hal)]
      exact ⟨hal, hpp⟩
  · exact fun e he => Nat.lt_succ_of_lt (h.logged e he)
  · intro e he i hiu hd
    by_cases hi : i = q
    · rw [hi, hpid]
      exact (h.logged e he).ne'
    · rw [hst i hi] at hiu hd
      rw [hother i hi]
      exact h.fresh e he i hiu hd
  · exact h.nodup
  · exact h.waiter

lemma zombify (h : s.Family) {n : ℕ} {w : Bool} (hp : s.st p = .running) :
    (s.zombify c p n w).Family := by
  have hreaped : (s.zombify c p n w).reaped = s.reaped := by
    unfold Life.zombify
    dsimp only
    rw [tellParent_eq]
    rfl
  have hnext : (s.zombify c p n w).nextPid = s.nextPid := by
    unfold Life.zombify
    dsimp only
    rw [tellParent_eq]
    rfl
  obtain ⟨hz, hother⟩ := st_zombify (s := s) (c := c) (p := p) (n := n) (w := w)
  have hsame : ∀ i o, ¬ ProcState.Alive o → s.st i = o → (s.zombify c p n w).st i = o := by
    rintro i o ho rfl
    have hip : i ≠ p := by
      rintro rfl
      exact ho (by rw [hp]; exact .inr (.inl rfl))
    exact (alive_of_woken (hother i hip)).resolve_right fun hal => ho hal.1
  have hunused : ∀ i, (s.zombify c p n w).st i ≠ .unused → s.st i ≠ .unused :=
    fun i hi hu => hi (hsame i _ (by simp [ProcState.Alive]) hu)
  refine h.congr hnext hreaped (fun i => (kin_zombify i).1) (fun i => (kin_zombify i).2.1)
    (fun i x hx => ((kin_zombify i).2.2 x hx).1) hunused
    (fun i _ hi hd => hi (hsame i _ (by simp [ProcState.Alive]) hd)) fun r i hi hpar hal => ?_
  have hrp : r ≠ p := by
    rintro rfl
    exact ((kin_zombify i).2.2 _ hpar).2 (hunused i hi) rfl
  obtain hs | hs := alive_of_woken (hother r hrp)
  · rwa [hs]
  · exact hs.2

end Family

end Life

end MyOS.Proc
