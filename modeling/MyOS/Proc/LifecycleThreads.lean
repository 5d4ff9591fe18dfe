import MyOS.Proc.Lifecycle

/-! Which CPU runs which process, and which thread makes or frees which slot. -/

namespace MyOS.Proc

open Library Function

def ProcState.Alive (st : ProcState) : Prop :=
  st = .ready ∨ st = .running ∨ st = .blocked ∨ st = .stopped

def ProcState.Next : ProcState → ProcState → Prop
  | .unused, .embryo | .embryo, .ready | .embryo, .unused | .ready, .running | .running, .ready
  | .running, .blocked | .running, .stopped | .blocked, .ready | .stopped, .ready | .running, .zombie
  | .zombie, .dead | .dead, .unused => True
  | _, _ => False

namespace CpuPc

def Locked : CpuPc → Prop
  | .back | .into _ | .enter _ | .leave _ => True
  | .sched | .run _ => False

def proc : CpuPc → Option Slot
  | .into p | .enter p | .run p | .leave p => some p
  | .sched | .back => none

def Runs (p : Slot) : CpuPc → Prop
  | .into q | .enter q | .run q => q = p
  | _ => False

variable {pc : CpuPc} {p : Slot}

lemma Runs.proc (h : pc.Runs p) : pc.proc = some p := by
  cases pc <;> first | exact congrArg some h | exact h.elim

lemma runs_or_leave (h : pc.proc = some p) : pc.Runs p ∨ pc = .leave p := by
  cases pc with
  | into q | enter q | run q => exact .inl (Option.some.inj h)
  | leave q => exact .inr (congrArg _ (Option.some.inj h))
  | sched | back => simp [CpuPc.proc] at h

end CpuPc

namespace LifePc

def makes : LifePc → Option Slot
  | .stack q _ | .undo q _ | .cwd q _ | .fork q | .image q | .dup q _ | .console q _ | .ready q => some q
  | _ => none

def frees : LifePc → Option Slot
  | .free q _ _ => some q
  | _ => none

def Owns (pc : LifePc) (q : Slot) : Prop := pc.makes = some q ∨ pc.frees = some q

@[simp]
lemma not_owns_user {q : Slot} : ¬ LifePc.user.Owns q := by
  simp [Owns, makes, frees]

end LifePc

namespace Life

variable {C : Type} {s t : Life C} {c d : C} {x y : Ctx C} {p q : Slot} {k : LifePc} {v : CpuPc}

def st (s : Life C) (q : Slot) : ProcState := (s.procs q).state

structure Cpus (s : Life C) : Prop where
  lock : ∀ c, s.lock = some c ↔ (s.cpu c).Locked
  sole : ∀ c d p, (s.cpu c).proc = some p → (s.cpu d).proc = some p → c = d
  running : ∀ c p, (s.cpu c).Runs p → s.st p = .running
  leaving : ∀ c p, s.cpu c = .leave p → s.st p ≠ .unused ∧ s.st p ≠ .embryo ∧ s.st p ≠ .dead
  runs : ∀ p, s.st p = .running → ∃ c, (s.cpu c).Runs p

structure Threads (s : Life C) : Prop where
  makes : ∀ x q, (s.pc x).makes = some q → s.st q = .embryo
  frees : ∀ x q, (s.pc x).frees = some q → s.st q = .embryo ∨ s.st q = .dead
  sole : ∀ x y q, (s.pc x).Owns q → (s.pc y).Owns q → x = y
  quiet : ∀ p, ¬ (s.st p).Alive → s.pc (.proc p) = .user ∨ s.pc (.proc p) = .gone

namespace Cpus

lemma alive_of_acts (h : s.Cpus) (hx : s.Acts c (.proc p)) : s.st p = .running := by
  obtain ⟨q, hc, hq⟩ | ⟨-, hx⟩ := hx
  · obtain rfl := Ctx.proc.inj hq
    exact h.running c p (by rw [hc]; rfl)
  · simp at hx

lemma acts_st (h : s.Cpus) {x : Ctx C} (hx : s.Acts c x) (p : Slot) (hp : x = .proc p) : s.st p = .running :=
  h.alive_of_acts (hp ▸ hx)

lemma run_st (h : s.Cpus) (hc : s.cpu c = .run p) : s.st p = .running := h.running c p (by rw [hc]; rfl)

lemma congr (h : s.Cpus) (hl : t.lock = s.lock) (hc : t.cpu = s.cpu) (hs : t.st = s.st) : t.Cpus := by
  constructor
  · rw [hl, hc]
    exact h.lock
  · rw [hc]
    exact h.sole
  · rw [hc, hs]
    exact h.running
  · rw [hc, hs]
    exact h.leaving
  · rw [hc, hs]
    exact h.runs

variable [DecidableEq C]

lemma step (h : s.Cpus) (hcpu : t.cpu = update s.cpu c v)
    (hfree : s.lock = none ∨ s.lock = some c) (hlock : ∀ d, t.lock = some d ↔ d = c ∧ v.Locked)
    (hproc : ∀ p, v.proc = some p → (s.cpu c).proc = some p ∨ s.st p ≠ .running)
    (hkeep : ∀ q, s.st q = .running → t.st q = .running ∨ (s.cpu c).proc = some q)
    (hnew : ∀ q, t.st q = .running → v.Runs q ∨ s.st q = .running ∧ ¬ (s.cpu c).Runs q)
    (hruns : ∀ q, v.Runs q → t.st q = .running)
    (hleave : ∀ q, v = .leave q → t.st q ≠ .unused ∧ t.st q ≠ .embryo ∧ t.st q ≠ .dead) : t.Cpus := by
  have hself : t.cpu c = v := by
    rw [hcpu, update_self]
  have hother : ∀ d, d ≠ c → t.cpu d = s.cpu d := by
    intro d hd
    rw [hcpu, update_of_ne hd]
  have hunlocked : ∀ d, d ≠ c → ¬ (s.cpu d).Locked := by
    intro d hd hlk
    have hd' := (h.lock d).2 hlk
    obtain hn | hn := hfree
    · simp [hn] at hd'
    · rw [hn] at hd'
      exact hd (Option.some.inj hd').symm
  have hapart : ∀ d p, d ≠ c → v.proc = some p → (s.cpu d).proc ≠ some p := by
    intro d p hd hp hdp
    obtain hcp | hst := hproc p hp
    · exact hd (h.sole d c p hdp hcp)
    · obtain hr | hl := CpuPc.runs_or_leave hdp
      · exact hst (h.running d p hr)
      · exact hunlocked d hd (by rw [hl]; trivial)
  constructor
  · intro d
    rw [hlock]
    by_cases hd : d = c
    · simp [hd, hself]
    · rw [hother d hd]
      exact ⟨fun hdc => absurd hdc.1 hd, fun hlk => absurd hlk (hunlocked d hd)⟩
  · intro d e p hd he
    by_cases hdc : d = c
    · by_cases hec : e = c
      · rw [hdc, hec]
      · rw [hdc, hself] at hd
        rw [hother e hec] at he
        exact absurd he (hapart e p hec hd)
    · by_cases hec : e = c
      · rw [hec, hself] at he
        rw [hother d hdc] at hd
        exact absurd hd (hapart d p hdc he)
      · rw [hother d hdc] at hd
        rw [hother e hec] at he
        exact h.sole d e p hd he
  · intro d p hd
    by_cases hdc : d = c
    · rw [hdc, hself] at hd
      exact hruns p hd
    · rw [hother d hdc] at hd
      obtain hp | hp := hkeep p (h.running d p hd)
      · exact hp
      · exact absurd (h.sole d c p hd.proc hp) hdc
  · intro d p hd
    by_cases hdc : d = c
    · rw [hdc, hself] at hd
      exact hleave p hd
    · rw [hother d hdc] at hd
      exact absurd (by rw [hd]; trivial) (hunlocked d hdc)
  · intro p hp
    obtain hr | ⟨hr, hn⟩ := hnew p hp
    · exact ⟨c, by rw [hself]; exact hr⟩
    · obtain ⟨d, hd⟩ := h.runs p hr
      refine ⟨d, ?_⟩
      rw [hother d fun hdc => hn (hdc ▸ hd)]
      exact hd

omit [DecidableEq C] in
lemma critical (h : s.Cpus) (hl : s.lock = none) (hl' : t.lock = none) (hcpu : t.cpu = s.cpu)
    (hst : ∀ q, t.st q = .running ↔ s.st q = .running) : t.Cpus := by
  have hunlocked : ∀ d, ¬ (s.cpu d).Locked := by
    intro d hd
    have hd' := (h.lock d).2 hd
    simp [hl] at hd'
  constructor
  · intro d
    rw [hl', hcpu, ← hl]
    exact h.lock d
  · rw [hcpu]
    exact h.sole
  · rw [hcpu]
    exact fun d p hd => (hst p).2 (h.running d p hd)
  · rw [hcpu]
    intro d p hd
    exact absurd (by rw [hd]; trivial) (hunlocked d)
  · rw [hcpu]
    exact fun p hp => h.runs p ((hst p).1 hp)

end Cpus

namespace Threads

lemma owned (h : s.Threads) (hq : (s.pc x).Owns q) : s.st q = .embryo ∨ s.st q = .dead := by
  obtain hq | hq := hq
  · exact .inl (h.makes x q hq)
  · exact h.frees x q hq

lemma congr (h : s.Threads) (hpc : t.pc = s.pc)
    (hkeep : ∀ q, s.st q = .embryo ∨ s.st q = .dead → t.st q = s.st q)
    (hquiet : ∀ p, ¬ (t.st p).Alive → ¬ (s.st p).Alive) : t.Threads := by
  constructor
  · intro x q hq
    rw [hpc] at hq
    rw [hkeep q (.inl (h.makes x q hq))]
    exact h.makes x q hq
  · intro x q hq
    rw [hpc] at hq
    rw [hkeep q (h.frees x q hq)]
    exact h.frees x q hq
  · rw [hpc]
    exact h.sole
  · intro p hp
    rw [hpc]
    exact h.quiet p (hquiet p hp)

variable [DecidableEq C]

lemma step (h : s.Threads) (hpc : t.pc = update s.pc x k)
    (hkeep : ∀ y q, y ≠ x → (s.pc y).Owns q → t.st q = s.st q)
    (hmakes : ∀ q, k.makes = some q → t.st q = .embryo)
    (hfrees : ∀ q, k.frees = some q → t.st q = .embryo ∨ t.st q = .dead)
    (hsole : ∀ q, k.Owns q → (s.pc x).Owns q ∨ ∀ y, ¬ (s.pc y).Owns q)
    (hquiet : ∀ p, x ≠ .proc p → ¬ (t.st p).Alive → ¬ (s.st p).Alive)
    (hx : ∀ p, x = .proc p → (t.st p).Alive ∨ k = .user ∨ k = .gone) : t.Threads := by
  have hself : t.pc x = k := by rw [hpc, update_self]
  have hother : ∀ y, y ≠ x → t.pc y = s.pc y := by
    intro y hy
    rw [hpc, update_of_ne hy]
  have hapart : ∀ y q, y ≠ x → k.Owns q → ¬ (s.pc y).Owns q := by
    intro y q hy hq hyq
    obtain hq | hq := hsole q hq
    · exact hy (h.sole y x q hyq hq)
    · exact hq y hyq
  constructor
  · intro y q hq
    by_cases hy : y = x
    · rw [hy, hself] at hq
      exact hmakes q hq
    · rw [hother y hy] at hq
      rw [hkeep y q hy (.inl hq)]
      exact h.makes y q hq
  · intro y q hq
    by_cases hy : y = x
    · rw [hy, hself] at hq
      exact hfrees q hq
    · rw [hother y hy] at hq
      rw [hkeep y q hy (.inr hq)]
      exact h.frees y q hq
  · intro y z q hyq hzq
    by_cases hy : y = x
    · by_cases hz : z = x
      · rw [hy, hz]
      · rw [hy, hself] at hyq
        rw [hother z hz] at hzq
        exact absurd hzq (hapart z q hz hyq)
    · rw [hother y hy] at hyq
      by_cases hz : z = x
      · rw [hz, hself] at hzq
        exact absurd hyq (hapart y q hy hzq)
      · rw [hother z hz] at hzq
        exact h.sole y z q hyq hzq
  · intro p hp
    by_cases hxp : .proc p = x
    · rw [hxp, hself]
      exact (hx p hxp.symm).resolve_left hp
    · rw [hother _ hxp]
      exact h.quiet p (hquiet p (Ne.symm hxp) hp)

end Threads

section States

@[simp]
lemma st_setProc {o : LifeProc C} : (s.setProc q o).st = update s.st q o.state := by
  funext i
  by_cases hi : i = q
  · subst hi
    simp [st, setProc]
  · simp [st, setProc, hi]

@[simp]
lemma st_setState {o : ProcState} : (s.setState q o).st = update s.st q o := by
  rw [setState, st_setProc]

lemma st_setProc_same {o : LifeProc C} (ho : o.state = s.st q) : (s.setProc q o).st = s.st := by
  rw [st_setProc, ho, update_eq_self]

lemma st_chan : (s.setProc p { s.procs p with chan := none }).st = s.st := st_setProc_same rfl

lemma st_reported : (s.setProc q { s.procs q with stopReported := true }).st = s.st :=
  st_setProc_same rfl

def Woken (s t : Life C) : Prop := ∀ i, t.st i = s.st i ∨ s.st i = .blocked ∧ t.st i = .ready

lemma woken_refl : s.Woken s := fun _ => .inl rfl

lemma Woken.trans {u : Life C} (h : s.Woken t) (h' : t.Woken u) : s.Woken u := by
  intro i
  obtain hi | ⟨hi, hr⟩ := h i
  · rw [← hi]
    exact h' i
  · obtain hu | ⟨hu, -⟩ := h' i
    · exact .inr ⟨hi, hu.trans hr⟩
    · rw [hr] at hu
      simp at hu

variable [DecidableEq C]

lemma woken_wakeup {ch : LifeChan C} : s.Woken (s.wakeup ch) := by
  intro i
  simp only [st, wakeup]
  split_ifs with h
  · exact .inr ⟨h.1, rfl⟩
  · exact .inl rfl

omit [DecidableEq C] in
lemma woken_signal {w : Bool} : s.Woken (s.signal x w) := by
  cases x with
  | idle c => exact woken_refl
  | proc q =>
    unfold signal
    dsimp only
    split_ifs with h
    · intro i
      rw [st_setState]
      by_cases hi : i = q
      · subst hi
        exact .inr ⟨h.2, update_self ..⟩
      · exact .inl (update_of_ne hi ..)
    · exact woken_refl

lemma woken_tellParent {w : Bool} : s.Woken (s.tellParent p w) := by
  unfold tellParent
  split
  · exact woken_refl
  · exact woken_wakeup.trans woken_signal

lemma tellParent_eq {w : Bool} : s.tellParent p w = { s with procs := (s.tellParent p w).procs } := by
  unfold tellParent
  cases (s.procs p).parent with
  | none => rfl
  | some x =>
    cases x with
    | idle c => rfl
    | proc q =>
      simp only [signal]
      split_ifs <;> rfl

lemma st_orphan : (s.orphan p).st = s.st := by
  funext i
  simp only [st, orphan]
  split_ifs <;> rfl

lemma st_alloc {k : Creation} : (s.alloc x q k).st = update s.st q .embryo := by
  funext i
  by_cases hi : i = q
  · subst hi
    simp [st, alloc]
  · simp [st, alloc, hi]

omit [DecidableEq C] in
lemma st_markDead {o : Option ℕ} : (s.markDead q o).st = update s.st q .dead :=
  st_setState

omit [DecidableEq C] in
lemma st_pickNext (h : s.pickNext = some p) : s.st p = .ready := by
  simpa [st] using List.find?_some h

omit [DecidableEq C] in
lemma st_firstUnused (h : s.firstUnused = some q) : s.st q = .unused := by
  simpa [st] using List.find?_some h

lemma waitScan_spec {pid : ℤ} {u : Bool} (h : s.waitScan p pid u = some q) :
    s.Awaited p pid q ∧ (s.st q = .zombie ∨ s.st q = .stopped ∧ u = true ∧
      (s.procs q).stopReported = false) := by
  simpa [st] using List.find?_some h

end States

lemma st_zombify [DecidableEq C] {n : ℕ} {w : Bool} : (s.zombify c p n w).st p = .zombie ∧
    ∀ i, i ≠ p → (s.zombify c p n w).st i = s.st i ∨
      s.st i = .blocked ∧ (s.zombify c p n w).st i = .ready := by
  have hst : ∀ i, (((s.setProc p { s.procs p with exitStatus := n }).orphan p).setState p .zombie).st i =
      if i = p then .zombie else s.st i := by
    intro i
    rw [st_setState, st_orphan, st_setProc]
    by_cases hi : i = p <;> simp [hi]
  have hwoken : ∀ i, (s.zombify c p n w).st i = (if i = p then .zombie else s.st i) ∨
      (if i = p then .zombie else s.st i) = ProcState.blocked ∧ (s.zombify c p n w).st i = .ready := by
    intro i
    rw [← hst]
    exact woken_tellParent (p := p) (w := w) i
  refine ⟨?_, fun i hi => ?_⟩
  · simpa using hwoken p
  · simpa [hi] using hwoken i

lemma st_stop [DecidableEq C] {n : ℕ} {w : Bool} (hk : (s.procs p).killed = false) :
    (s.stop c p n w).st p = .stopped ∧ ∀ i, i ≠ p → (s.stop c p n w).st i = s.st i ∨
      s.st i = .blocked ∧ (s.stop c p n w).st i = .ready := by
  have hst : ∀ i, (s.setProc p { s.procs p with
      state := .stopped, stopSig := n, stopReported := false }).st i = if i = p then .stopped else s.st i := by
    intro i
    rw [st_setProc]
    by_cases hi : i = p <;> simp [hi]
  have hwoken : ∀ i, (s.stop c p n w).st i = (if i = p then .stopped else s.st i) ∨
      (if i = p then .stopped else s.st i) = ProcState.blocked ∧ (s.stop c p n w).st i = .ready := by
    intro i
    unfold stop
    rw [if_neg (by simp [hk]), ← hst]
    exact woken_tellParent (p := p) (w := w) i
  refine ⟨?_, fun i hi => ?_⟩
  · simpa using hwoken p
  · simpa [hi] using hwoken i

section Calm

def SameKin (s t : Life C) : Prop := ∀ i, (t.procs i).pid = (s.procs i).pid ∧
  (t.procs i).ppid = (s.procs i).ppid ∧ (t.procs i).parent = (s.procs i).parent

lemma sameKin_refl : s.SameKin s := fun _ => ⟨rfl, rfl, rfl⟩

lemma SameKin.trans {u : Life C} (h : s.SameKin t) (h' : t.SameKin u) : s.SameKin u := by
  intro i
  obtain ⟨hpid, hppid, hparent⟩ := h i
  obtain ⟨hpid', hppid', hparent'⟩ := h' i
  exact ⟨hpid'.trans hpid, hppid'.trans hppid, hparent'.trans hparent⟩

lemma sameKin_setProc {o : LifeProc C} (hpid : o.pid = (s.procs q).pid) (hppid : o.ppid = (s.procs q).ppid)
    (hparent : o.parent = (s.procs q).parent) : s.SameKin (s.setProc q o) := by
  intro i
  by_cases hi : i = q
  · subst hi
    simp [setProc, hpid, hppid, hparent]
  · simp [setProc, hi]

lemma sameKin_setState {o : ProcState} : s.SameKin (s.setState q o) := sameKin_setProc rfl rfl rfl

variable [DecidableEq C]

lemma sameKin_wakeup {ch : LifeChan C} : s.SameKin (s.wakeup ch) := by
  intro i
  simp only [wakeup]
  split_ifs <;> exact ⟨rfl, rfl, rfl⟩

omit [DecidableEq C] in
lemma sameKin_signal {w : Bool} : s.SameKin (s.signal x w) := by
  cases x with
  | idle c => exact sameKin_refl
  | proc q =>
    unfold signal
    dsimp only
    split_ifs
    · exact sameKin_setState
    · exact sameKin_refl

lemma sameKin_tellParent {w : Bool} : s.SameKin (s.tellParent p w) := by
  unfold tellParent
  split
  · exact sameKin_refl
  · exact sameKin_wakeup.trans sameKin_signal

lemma sameKin_stop {n : ℕ} {w : Bool} : s.SameKin (s.stop c p n w) := by
  unfold Life.stop
  split_ifs
  · exact sameKin_refl
  · exact (sameKin_setProc (q := p) (o := { s.procs p with state := .stopped, stopSig := n, stopReported := false })
      rfl rfl rfl).trans sameKin_tellParent

omit [DecidableEq C] in
lemma alive_of_woken {a b : ProcState} (h : b = a ∨ a = .blocked ∧ b = .ready) :
    b = a ∨ a.Alive ∧ b.Alive := by
  obtain h | ⟨rfl, rfl⟩ := h
  · exact .inl h
  · exact .inr ⟨.inr (.inr (.inl rfl)), .inl rfl⟩

/-- No process is made, freed or reaped, and no thread goes on. -/
structure Calm (s t : Life C) : Prop where
  pc : t.pc = s.pc
  res : t.res = s.res
  nextPid : t.nextPid = s.nextPid
  reaped : t.reaped = s.reaped
  kin : s.SameKin t
  st : ∀ i, t.st i = s.st i ∨ ((s.st i).Alive ∧ (t.st i).Alive) ∧ (s.st i).Next (t.st i)

omit [DecidableEq C] in
lemma calm_refl : s.Calm s := ⟨rfl, rfl, rfl, rfl, sameKin_refl, fun _ => .inl rfl⟩

omit [DecidableEq C] in
lemma calm_setProc {o : LifeProc C} (hpid : o.pid = (s.procs q).pid) (hppid : o.ppid = (s.procs q).ppid)
    (hparent : o.parent = (s.procs q).parent)
    (hst : o.state = s.st q ∨ ((s.st q).Alive ∧ o.state.Alive) ∧ (s.st q).Next o.state) :
    s.Calm (s.setProc q o) := by
  refine ⟨rfl, rfl, rfl, rfl, sameKin_setProc hpid hppid hparent, fun i => ?_⟩
  rw [st_setProc]
  by_cases hi : i = q
  · subst hi
    rwa [update_self]
  · exact .inl (update_of_ne hi ..)

omit [DecidableEq C] in
lemma calm_ready (hp : s.st p = .running) : s.Calm (s.setState p .ready) := by
  refine calm_setProc rfl rfl rfl (.inr ?_)
  rw [hp]
  simp [ProcState.Alive, ProcState.Next]

omit [DecidableEq C] in
lemma calm_block (ch : Option (LifeChan C)) (hp : s.st p = .running) :
    s.Calm (s.setProc p { s.procs p with state := .blocked, chan := ch }) := by
  refine calm_setProc rfl rfl rfl (.inr ?_)
  rw [hp]
  simp [ProcState.Alive, ProcState.Next]

lemma Calm.setCpu {l : Option C} (h : s.Calm t) : s.Calm (t.setCpu c l v) :=
  ⟨h.pc, h.res, h.nextPid, h.reaped, h.kin, h.st⟩

omit [DecidableEq C] in
lemma calm_chan : s.Calm (s.setProc p { s.procs p with chan := none }) :=
  calm_setProc rfl rfl rfl (.inl rfl)

lemma calm_pick (hp : s.pickNext = some p) :
    s.Calm ({ s.setState p .running with rrNext := p + 1 }.setCpu c (some c) (.into p)) := by
  have h : s.Calm (s.setState p .running) := by
    refine calm_setProc rfl rfl rfl (.inr ?_)
    rw [st_pickNext hp]
    simp [ProcState.Alive, ProcState.Next]
  exact ⟨h.pc, h.res, h.nextPid, h.reaped, h.kin, h.st⟩

lemma calm_stop {n : ℕ} {w : Bool} (hp : s.st p = .running) : s.Calm (s.stop c p n w) := by
  cases hk : (s.procs p).killed with
  | true =>
    rw [show s.stop c p n w = s from if_pos hk]
    exact calm_refl
  | false =>
    obtain ⟨hself, hother⟩ := st_stop (s := s) (c := c) (n := n) (w := w) hk
    have heq : s.stop c p n w = ((s.setProc p { s.procs p with
        state := .stopped, stopSig := n, stopReported := false }).tellParent p w).setCpu c (some c)
          (.leave p) := if_neg (by simp [hk])
    refine ⟨?_, ?_, ?_, ?_, sameKin_stop, fun i => ?_⟩
    iterate 4
      rw [heq, tellParent_eq]
      rfl
    by_cases hi : i = p
    · rw [hi, hself, hp]
      simp [ProcState.Alive, ProcState.Next]
    · obtain hi | ⟨hb, hr⟩ := hother i hi
      · exact .inl hi
      · rw [hb, hr]
        simp [ProcState.Alive, ProcState.Next]

omit [DecidableEq C] in
lemma calm_wake (hq : s.st q = .blocked ∨ s.st q = .stopped) : s.Calm (s.setState q .ready) := by
  refine calm_setProc rfl rfl rfl (.inr ?_)
  obtain hq | hq := hq <;> rw [hq] <;> simp [ProcState.Alive, ProcState.Next]

end Calm

lemma running_iff_of_woken {a b : ProcState} (h : b = a ∨ a = .blocked ∧ b = .ready) :
    b = .running ↔ a = .running := by
  obtain rfl | ⟨rfl, rfl⟩ := h <;> simp

namespace Cpus

variable [DecidableEq C] {boot : C}

omit [DecidableEq C] in
lemma eq_of_runs (hp : (s.cpu c).Runs p) (hq : (s.cpu c).Runs q) : q = p :=
  Option.some.inj (hq.proc.symm.trans hp.proc)

lemma go (h : s.Cpus) (hp : (s.cpu c).Runs p) (hfree : s.lock = none ∨ s.lock = some c)
    (hcpu : t.cpu = update s.cpu c (.run p)) (hlock : t.lock = none)
    (hst : ∀ q, t.st q = .running ↔ s.st q = .running) : t.Cpus := by
  refine h.step hcpu hfree (fun d => ?_) (fun q hq => .inl ?_) (fun q hq => .inl ((hst q).2 hq))
    (fun q hq => ?_) (fun q hq => ?_) fun q hq => by simp at hq
  · rw [hlock]
    simp [CpuPc.Locked]
  · rw [← Option.some.inj hq]
    exact hp.proc
  · by_cases hqp : q = p
    · exact .inl hqp.symm
    · exact .inr ⟨(hst q).1 hq, fun hr => hqp (eq_of_runs hp hr)⟩
  · obtain rfl : p = q := hq
    exact (hst p).2 (h.running c p hp)

lemma leave (h : s.Cpus) (hp : (s.cpu c).Runs p) (hfree : s.lock = none ∨ s.lock = some c)
    (hcpu : t.cpu = update s.cpu c (.leave p)) (hlock : t.lock = some c)
    (hst : ∀ q, q ≠ p → (t.st q = .running ↔ s.st q = .running)) (hrun : t.st p ≠ .running)
    (hleave : t.st p ≠ .unused ∧ t.st p ≠ .embryo ∧ t.st p ≠ .dead) : t.Cpus := by
  refine h.step hcpu hfree (fun d => ?_) (fun q hq => .inl ?_) (fun q hq => ?_) (fun q hq => ?_)
    (fun q hq => hq.elim) fun q hq => ?_
  · rw [hlock]
    simp [CpuPc.Locked, eq_comm]
  · rw [← Option.some.inj hq]
    exact hp.proc
  · by_cases hqp : q = p
    · exact .inr (hqp ▸ hp.proc)
    · exact .inl ((hst q hqp).2 hq)
  · have hqp : q ≠ p := by
      rintro rfl
      exact hrun hq
    exact .inr ⟨(hst q hqp).1 hq, fun hr => hqp (eq_of_runs hp hr)⟩
  · obtain rfl : p = q := CpuPc.leave.inj hq
    exact hleave

lemma leave_update (h : s.Cpus) {o : ProcState} (hp : (s.cpu c).Runs p)
    (hfree : s.lock = none ∨ s.lock = some c) (hcpu : t.cpu = update s.cpu c (.leave p))
    (hlock : t.lock = some c) (hst : t.st = update s.st p o) (hrun : o ≠ .running)
    (ho : o ≠ .unused ∧ o ≠ .embryo ∧ o ≠ .dead) : t.Cpus := by
  refine h.leave hp hfree hcpu hlock (fun q hq => ?_) ?_ ?_
  · rw [hst, update_of_ne hq]
  · rwa [hst, update_self]
  · rwa [hst, update_self]

omit [DecidableEq C] in
lemma critical_update (h : s.Cpus) {o : ProcState} (hl : s.lock = none) (hl' : t.lock = none)
    (hcpu : t.cpu = s.cpu) (hst : t.st = update s.st q o) (hq : s.st q ≠ .running)
    (ho : o ≠ .running) : t.Cpus := by
  refine h.critical hl hl' hcpu fun i => ?_
  rw [hst]
  by_cases hi : i = q
  · subst hi
    simp [hq, ho]
  · simp [hi]

lemma waitRound (h : s.Cpus) {pid : ℤ} {u n w : Bool}
    (hc : s.cpu c = .run p ∧ s.lock = none ∨ s.cpu c = .enter p ∧ s.lock = some c) :
    (s.waitRound c p pid u n w).Cpus := by
  have hruns : (s.cpu c).Runs p := by
    obtain ⟨hc, -⟩ | ⟨hc, -⟩ := hc <;> rw [hc] <;> rfl
  have hfree : s.lock = none ∨ s.lock = some c := hc.imp And.right And.right
  unfold Life.waitRound
  split
  · rename_i q hq
    obtain ⟨-, hst⟩ := waitScan_spec hq
    split_ifs with hz
    · refine h.go hruns hfree rfl rfl fun i => ?_
      change (s.markDead q (some (s.procs p).pid)).st i = _ ↔ _
      rw [st_markDead]
      by_cases hi : i = q
      · subst hi
        have hz' : s.st i = .zombie := hz
        simp [hz']
      · simp [hi]
    · refine h.go hruns hfree rfl rfl fun i => ?_
      change (s.setProc q { s.procs q with stopReported := true }).st i = _ ↔ _
      rw [st_reported]
  · split_ifs
    · exact h.go hruns hfree rfl rfl fun i => Iff.rfl
    · refine h.leave_update (o := .blocked) hruns hfree rfl rfl ?_ (by decide) (by decide)
      exact st_setProc (o := { s.procs p with state := .blocked, chan := some (.of (.proc p)) })

lemma pick (h : s.Cpus) (hc : s.cpu c = .sched) (hl : s.lock = none) (hp : s.pickNext = some p) :
    Cpus ({ s.setState p .running with rrNext := p + 1 }.setCpu c (some c) (.into p)) := by
  have hready := st_pickNext hp
  have hst : (s.setState p .running).st = update s.st p .running := st_setState
  refine h.step (v := .into p) rfl (.inl hl) (fun d => ?_) (fun q hq => .inr ?_) (fun q hq => .inl ?_)
    (fun q hq => ?_) (fun q hq => ?_) fun q hq => by simp at hq
  · change some c = some d ↔ _
    simp [CpuPc.Locked, eq_comm]
  · rw [← Option.some.inj hq, hready]
    simp
  · change (s.setState p .running).st q = _
    rw [hst]
    by_cases hqp : q = p
    · simp [hqp]
    · simp [hqp, hq]
  · have hq' : (s.setState p .running).st q = .running := hq
    rw [hst] at hq'
    by_cases hqp : q = p
    · exact .inl hqp.symm
    · exact .inr ⟨by simpa [hqp] using hq', by simp [hc, CpuPc.Runs]⟩
  · obtain rfl : p = q := hq
    change (s.setState p .running).st p = _
    rw [hst, update_self]

lemma switchIn (h : s.Cpus) (hc : s.cpu c = .into p) : (s.setCpu c (some c) (.enter p)).Cpus := by
  have hp : (s.cpu c).Runs p := by rw [hc]; rfl
  refine h.step (v := .enter p) rfl (.inr ((h.lock c).2 (by rw [hc]; trivial))) (fun d => ?_)
    (fun q hq => .inl ?_) (fun q hq => .inl hq) (fun q hq => ?_) (fun q hq => ?_) fun q hq => by simp at hq
  · change some c = some d ↔ _
    simp [CpuPc.Locked, eq_comm]
  · rw [← Option.some.inj hq]
    exact hp.proc
  · by_cases hqp : q = p
    · exact .inl hqp.symm
    · exact .inr ⟨hq, fun hr => hqp (eq_of_runs hp hr)⟩
  · obtain rfl : p = q := hq
    exact h.running c p hp

lemma scheduler (h : s.Cpus) {o : Option C} (hl : s.lock = some c) (hc : ∀ p, ¬ (s.cpu c).Runs p)
    (ho : ∀ d, o = some d ↔ d = c ∧ v.Locked) (hv : v.proc = none) : (s.setCpu c o v).Cpus := by
  refine h.step rfl (.inr hl) ho (fun q hq => ?_) (fun q hq => .inl hq) (fun q hq => .inr ⟨hq, hc q⟩)
    (fun q hq => ?_) fun q hq => ?_
  · simp [hv] at hq
  · rw [hq.proc] at hv
    cases hv
  · rw [hq] at hv
    cases hv

lemma stop (h : s.Cpus) {n : ℕ} {w : Bool} (hc : s.cpu c = .run p) (hl : s.lock = none) :
    (s.stop c p n w).Cpus := by
  cases hk : (s.procs p).killed with
  | true =>
    rw [show s.stop c p n w = s from if_pos hk]
    exact h
  | false =>
    obtain ⟨hp, hother⟩ := st_stop (s := s) (c := c) (n := n) (w := w) hk
    have hcpu : s.stop c p n w = ((s.setProc p { s.procs p with
        state := .stopped, stopSig := n, stopReported := false }).tellParent p w).setCpu c (some c)
          (.leave p) := if_neg (by simp [hk])
    refine h.leave (p := p) (by rw [hc]; rfl) (.inl hl) ?_ ?_ (fun q hq => ?_) ?_ ?_
    · rw [hcpu, tellParent_eq]
      rfl
    · rw [hcpu]
      rfl
    · exact running_iff_of_woken (hother q hq)
    · rw [hp]
      decide
    · rw [hp]
      decide

lemma zombify (h : s.Cpus) {n : ℕ} {w : Bool} (hc : s.cpu c = .run p) (hl : s.lock = none) :
    (s.zombify c p n w).Cpus := by
  obtain ⟨hp, hother⟩ := st_zombify (s := s) (c := c) (p := p) (n := n) (w := w)
  refine h.leave (p := p) (by rw [hc]; rfl) (.inl hl) ?_ rfl (fun q hq => ?_) ?_ ?_
  · unfold Life.zombify
    dsimp only
    rw [tellParent_eq]
    rfl
  · exact running_iff_of_woken (hother q hq)
  · rw [hp]
    decide
  · rw [hp]
    decide

end Cpus

variable [DecidableEq C] {boot : C}

lemma Step.cpus (hs : Step boot s c t) (h : s.Cpus) (ht : s.Threads) : t.Cpus := by
  have hnot : ∀ x q, (s.pc x).Owns q → s.st q ≠ .running := by
    intro x q hq hr
    obtain he | he := ht.owned hq <;> simp [he] at hr
  have hlock : (s.cpu c).Locked → s.lock = some c := (h.lock c).2
  cases hs with
  | move | noneReady | noSlot | reaped | swap | exec => exact h.congr rfl rfl rfl
  | pick hc _ hl hp => exact h.pick hc hl hp
  | switchIn hc => exact h.switchIn hc
  | @resume c p hc =>
    refine h.go (p := p) (by rw [hc]; rfl) (.inr (hlock (by rw [hc]; trivial))) rfl rfl fun q => ?_
    change (s.setProc p { s.procs p with chan := none }).st q = _ ↔ _
    rw [st_chan]
  | switchOut hc =>
    exact h.scheduler (hlock (by rw [hc]; trivial)) (by simp [hc, CpuPc.Runs])
      (by simp [CpuPc.Locked, eq_comm]) rfl
  | unlock hc =>
    exact h.scheduler (hlock (by rw [hc]; trivial)) (by simp [hc, CpuPc.Runs])
      (by simp [CpuPc.Locked]) rfl
  | @yield c p hc hl =>
    exact h.leave_update (o := .ready) (by rw [hc]; rfl) (.inl hl) rfl rfl
      (st_setState (s := s)) (by decide) (by decide)
  | @sleep c p n hc hl =>
    refine h.leave_update (o := .blocked) (by rw [hc]; rfl) (.inl hl) rfl rfl ?_ (by decide) (by decide)
    exact st_setProc (o := { s.procs p with state := .blocked, chan := some (.other n) })
  | stop hc _ hl => exact h.stop hc hl
  | @wake c q hl hq =>
    refine h.critical_update hl hl rfl st_setState ?_ (by decide)
    change (s.procs q).state ≠ _
    obtain hq | hq := hq <;> rw [hq] <;> decide
  | kill hl | setPgid hl => exact h.congr rfl rfl (st_setProc_same rfl)
  | alloc hx hk hl hq =>
    refine h.critical_update hl hl rfl st_alloc ?_ (by decide)
    rw [st_firstUnused hq]
    decide
  | @undo c x q k hx hk hl =>
    exact h.critical_update hl hl rfl (st_setState (s := s) (o := .unused))
      (hnot x q (by rw [hk]; exact .inl rfl)) (by decide)
  | @makeReady c x q hx hk hl =>
    exact h.critical_update hl hl rfl (st_setState (s := s) (o := .ready))
      (hnot x q (by rw [hk]; exact .inl rfl)) (by decide)
  | wait hc hu hl => exact h.waitRound (.inl ⟨hc, hl⟩)
  | @waitAgain c p pid u n w hc hw =>
    exact (h.congr (t := s.setProc p { s.procs p with chan := none }) rfl rfl st_chan).waitRound
      (.inr ⟨hc, hlock (by rw [hc]; trivial)⟩)
  | @reap c i hc hk hl =>
    unfold reapRound
    split_ifs with hz
    · refine h.critical_update hl hl rfl (st_markDead (s := s) (o := none)) ?_ (by decide)
      change (s.procs i).state ≠ _
      rw [hz.1]
      decide
    · exact h.congr rfl rfl rfl
  | @freed c x q b hx hk hl =>
    exact h.critical_update hl hl rfl (st_setState (s := s) (o := .unused))
      (hnot x q (by rw [hk]; exact .inr rfl)) (by decide)
  | zombify hc _ hl => exact h.zombify hc hl

end Life

lemma LifeMove.owns {C : Type} {l l' : Ledger (Slot × Res)} {x : Ctx C} {pc pc' : LifePc} {q : Slot}
    (h : LifeMove l x pc pc' l') : (pc'.makes = some q → pc.makes = some q) ∧
      (pc'.frees = some q → pc.Owns q) := by
  cases h with
  | @cwd x q' pc => cases pc <;> simp [LifePc.makes, LifePc.frees, LifePc.Owns, Life.built]
  | _ => simp [LifePc.makes, LifePc.frees, LifePc.Owns]

namespace Life

variable {C : Type} [DecidableEq C] {s t : Life C} {c : C} {x : Ctx C} {p q : Slot} {k : LifePc} {boot : C}

namespace Threads

lemma goOn (h : s.Threads) (hpc : t.pc = update s.pc x k) (hst : t.st = s.st)
    (hx : ∀ p, x = .proc p → s.st p = .running)
    (hmakes : ∀ q, k.makes = some q → (s.pc x).makes = some q)
    (hfrees : ∀ q, k.frees = some q → (s.pc x).Owns q) : t.Threads := by
  refine h.step hpc (fun y q _ _ => by rw [hst]) (fun q hq => ?_) (fun q hq => ?_) (fun q hq => .inl ?_)
    (fun p _ hp => by rwa [hst] at hp) fun p hp => .inl ?_
  · rw [hst]
    exact h.makes x q (hmakes q hq)
  · rw [hst]
    exact h.owned (hfrees q hq)
  · exact hq.elim (fun hq => .inl (hmakes q hq)) (hfrees q)
  · rw [hst, hx p hp]
    exact .inr (.inl rfl)

omit [DecidableEq C] in
lemma calm (h : s.Threads) (hc : s.Calm t) : t.Threads := by
  refine h.congr hc.pc (fun q hq => (hc.st q).resolve_right fun hal => ?_) fun q hq hal => ?_
  · obtain hq | hq := hq <;> simp [hq, ProcState.Alive] at hal
  · obtain hq' | ⟨⟨-, hal'⟩, -⟩ := hc.st q
    · rw [hq'] at hq
      exact hq hal
    · exact hq hal'

lemma settle (h : s.Threads) {o : ProcState} (hpc : t.pc = update s.pc x k)
    (hst : t.st = update s.st q o) (hq : ∀ y, y ≠ x → ¬ (s.pc y).Owns q)
    (hal : (s.st q).Alive → o.Alive) (hown : ∀ r, k.Owns r → r = q)
    (hmakes : k.makes = some q → o = .embryo) (hfrees : k.frees = some q → o = .embryo ∨ o = .dead)
    (hx : ∀ p, x = .proc p → s.st p = .running ∧ p ≠ q) : t.Threads := by
  have hself : t.st q = o := by rw [hst, update_self]
  have hother : ∀ i, i ≠ q → t.st i = s.st i := by
    intro i hi
    rw [hst, update_of_ne hi]
  refine h.step hpc (fun y r hy hr => hother r ?_) (fun r hr => ?_) (fun r hr => ?_) (fun r hr => ?_)
    (fun p _ hp hal' => ?_) fun p hp => .inl ?_
  · rintro rfl
    exact hq y hy hr
  · obtain rfl := hown r (.inl hr)
    rw [hself]
    exact hmakes hr
  · obtain rfl := hown r (.inr hr)
    rw [hself]
    exact hfrees hr
  · obtain rfl := hown r hr
    by_cases hx : (s.pc x).Owns r
    · exact .inl hx
    · refine .inr fun y hy => ?_
      by_cases hyx : y = x
      · exact hx (hyx ▸ hy)
      · exact hq y hyx hy
  · by_cases hpq : p = q
    · subst hpq
      rw [hself] at hp
      exact hp (hal hal')
    · rw [hother p hpq] at hp
      exact hp hal'
  · obtain ⟨hr, hpq⟩ := hx p hp
    rw [hother p hpq, hr]
    exact .inr (.inl rfl)

omit [DecidableEq C] in
lemma free_of_st (h : s.Threads) (he : s.st q ≠ .embryo) (hd : s.st q ≠ .dead) (y : Ctx C) :
    ¬ (s.pc y).Owns q := fun hq => (h.owned hq).elim he hd

lemma alloc (h : s.Threads) {k : Creation} (hx : ∀ p, x = .proc p → s.st p = .running)
    (hq : s.st q = .unused) : (s.alloc x q k).Threads := by
  have hnone := h.free_of_st (q := q) (by simp [hq]) (by simp [hq])
  have hreset : (s.setPc (.proc q) .user).Threads := by
    refine h.step rfl (fun _ _ _ _ => rfl) (fun r hr => by simp [LifePc.makes] at hr)
      (fun r hr => by simp [LifePc.frees] at hr) (fun r hr => by simp at hr) (fun _ _ hp => hp)
      fun p _ => .inr (.inl rfl)
  refine hreset.settle (x := x) (q := q) rfl st_alloc (fun y _ hy => ?_) (fun hal => ?_) (fun r hr => ?_)
    (fun _ => rfl) (fun hr => by simp [LifePc.frees] at hr) fun p hp => ⟨hx p hp, ?_⟩
  · by_cases hyq : y = .proc q
    · subst hyq
      simp [setPc] at hy
    · simp only [setPc] at hy
      rw [update_of_ne hyq] at hy
      exact hnone y hy
  · have hal' : (s.st q).Alive := hal
    simp [hq, ProcState.Alive] at hal'
  · obtain hr | hr := hr
    · exact (Option.some.inj hr).symm
    · simp [LifePc.frees] at hr
  · rintro rfl
    have hr := hx p hp
    simp [hq] at hr

lemma mark (h : s.Threads) {l : List Res} {b : FreeBack} (hpc : t.pc = update s.pc x (.free q l b))
    (hst : t.st = update s.st q .dead) (hx : ∀ p, x = .proc p → s.st p = .running)
    (hq : s.st q = .zombie) : t.Threads := by
  have hnone := h.free_of_st (q := q) (by simp [hq]) (by simp [hq])
  refine h.settle hpc hst (fun y _ => hnone y) (fun hal => ?_) (fun r hr => ?_)
    (fun hr => by simp [LifePc.makes] at hr) (fun _ => .inr rfl) fun p hp => ⟨hx p hp, ?_⟩
  · simp [hq, ProcState.Alive] at hal
  · obtain hr | hr := hr
    · simp [LifePc.makes] at hr
    · exact (Option.some.inj hr).symm
  · rintro rfl
    have hr := hx p hp
    simp [hq] at hr

lemma done (h : s.Threads) {o : ProcState} (hpc : t.pc = update s.pc x k)
    (hst : t.st = update s.st q o) (hx : ∀ p, x = .proc p → s.st p = .running)
    (hq : (s.pc x).Owns q) (hown : ∀ r, ¬ k.Owns r) : t.Threads := by
  have hdead := h.owned hq
  refine h.settle hpc hst (fun y hy hyq => hy (h.sole y x q hyq hq)) (fun hal => ?_)
    (fun r hr => absurd hr (hown r)) (fun hr => absurd (.inl hr) (hown q))
    (fun hr => absurd (.inr hr) (hown q)) fun p hp => ⟨hx p hp, ?_⟩
  · obtain hd | hd := hdead <;> simp [hd, ProcState.Alive] at hal
  · rintro rfl
    have hr := hx p hp
    obtain hd | hd := hdead <;> simp [hr] at hd

lemma waitRound (h : s.Threads) {pid : ℤ} {u n w : Bool} (hp : s.st p = .running) :
    (s.waitRound c p pid u n w).Threads := by
  have hx : ∀ p', Ctx.proc (C := C) p = .proc p' → s.st p' = .running := by
    intro p' hp'
    rw [← Ctx.proc.inj hp', hp]
  unfold Life.waitRound
  split
  · rename_i q hq
    split_ifs with hz
    · exact h.mark (x := .proc p) rfl (st_markDead (o := some (s.procs p).pid)) hx hz
    · refine h.goOn (x := .proc p) (k := .user) rfl ?_ hx (fun q hq => by simp [LifePc.makes] at hq)
        fun q hq => by simp [LifePc.frees] at hq
      exact st_reported
  · split_ifs
    · exact h.goOn (x := .proc p) (k := .user) rfl rfl hx (fun q hq => by simp [LifePc.makes] at hq)
        fun q hq => by simp [LifePc.frees] at hq
    · have hst : ∀ i, (s.setProc p { s.procs p with
          state := .blocked, chan := some (.of (.proc p)) }).st i = if i = p then .blocked else s.st i := by
        intro i
        rw [st_setProc]
        by_cases hi : i = p <;> simp [hi]
      refine h.step (x := .proc p) (k := .wait pid u n) rfl (fun y r _ hr => (hst r).trans (if_neg ?_))
        (fun r hr => by simp [LifePc.makes] at hr) (fun r hr => by simp [LifePc.frees] at hr)
        (fun r hr => by simp [LifePc.Owns, LifePc.makes, LifePc.frees] at hr) (fun i hi hal => ?_)
        fun i hi => .inl ?_
      · rintro rfl
        obtain hr | hr := h.owned hr <;> simp [hp] at hr
      · have hip : i ≠ p := by
          rintro rfl
          exact hi rfl
        have hal' : ¬ ((s.setProc p { s.procs p with
          state := .blocked, chan := some (.of (.proc p)) }).st i).Alive := hal
        rw [hst, if_neg hip] at hal'
        exact hal'
      · have hip : i = p := (Ctx.proc.inj hi).symm
        change ((s.setProc p { s.procs p with
          state := .blocked, chan := some (.of (.proc p)) }).st i).Alive
        rw [hst, if_pos hip]
        exact .inr (.inr (.inl rfl))

end Threads

lemma Step.threads (hs : Step boot s c t) (h : s.Cpus) (ht : s.Threads) : t.Threads := by
  have hself : ∀ p, s.st p = .running → ∀ p', Ctx.proc (C := C) p = .proc p' → s.st p' = .running := by
    rintro p hp p' hpp
    rw [← Ctx.proc.inj hpp, hp]
  cases hs with
  | @move c x k l hx hm =>
    exact ht.goOn rfl rfl (h.acts_st hx) (fun q => (hm.owns).1) fun q => (hm.owns).2
  | noneReady =>
    exact ht.goOn (x := .idle c) (k := .reap 0) rfl rfl (fun p hp => by simp at hp)
      (fun q hq => by simp [LifePc.makes] at hq) fun q hq => by simp [LifePc.frees] at hq
  | pick _ _ _ hp => exact ht.calm (calm_pick hp)
  | switchIn | switchOut | unlock => exact ht.calm calm_refl.setCpu
  | resume => exact ht.calm calm_chan.setCpu
  | yield hc => exact ht.calm (calm_ready (h.run_st hc)).setCpu
  | sleep hc => exact ht.calm (calm_block _ (h.run_st hc)).setCpu
  | stop hc => exact ht.calm (calm_stop (h.run_st hc))
  | wake _ hq => exact ht.calm (calm_wake hq)
  | kill | setPgid => exact ht.calm (calm_setProc rfl rfl rfl (.inl rfl))
  | @alloc c x q k hx hk hl hq => exact ht.alloc (h.acts_st hx) (st_firstUnused hq)
  | @noSlot c x hx =>
    exact ht.goOn (k := .abandon) rfl rfl (h.acts_st hx) (fun q hq => by simp [LifePc.makes] at hq)
      fun q hq => by simp [LifePc.frees] at hq
  | @undo c x q k hx hk hl =>
    refine ht.done (x := x) (q := q) (k := failed k) rfl st_setState (h.acts_st hx) ?_ fun r hr => ?_
    · rw [hk]
      exact .inl rfl
    · cases k <;> simp [failed, LifePc.Owns, LifePc.makes, LifePc.frees] at hr
  | @makeReady c x q hx hk hl =>
    refine ht.done (x := x) (q := q) (k := .user) rfl st_setState (h.acts_st hx) ?_ fun r hr => by simp at hr
    rw [hk]
    exact .inl rfl
  | @wait c p pid u n w hc hu hl => exact ht.waitRound (h.run_st hc)
  | @waitAgain c p pid u n w hc hw =>
    refine (ht.calm calm_chan).waitRound ?_
    rw [st_chan]
    exact h.running c p (by rw [hc]; rfl)
  | @reap c i hc hk hl =>
    unfold reapRound
    split_ifs with hz
    · exact ht.mark (x := .idle c) rfl (st_markDead (o := none)) (fun p hp => by simp at hp) hz.1
    · exact ht.goOn (x := .idle c) (k := .reap (i + 1)) rfl rfl (fun p hp => by simp at hp)
        (fun q hq => by simp [LifePc.makes] at hq) fun q hq => by simp [LifePc.frees] at hq
  | @reaped c i =>
    exact ht.goOn (x := .idle c) (k := .user) rfl rfl (fun p hp => by simp at hp)
      (fun q hq => by simp [LifePc.makes] at hq) fun q hq => by simp [LifePc.frees] at hq
  | @freed c x q b hx hk hl =>
    refine ht.done (x := x) (q := q) (k := back b) rfl st_setState (h.acts_st hx) ?_ fun r hr => ?_
    · rw [hk]
      exact .inr rfl
    · cases b <;> simp [back, LifePc.Owns, LifePc.makes, LifePc.frees] at hr
  | @swap c p n hc =>
    exact ht.goOn (x := .proc p) (k := .destroy n) rfl rfl (hself p (h.run_st hc))
      (fun q hq => by simp [LifePc.makes] at hq) fun q hq => by simp [LifePc.frees] at hq
  | @exec c p hc =>
    exact ht.goOn (x := .proc p) (k := .shed) rfl rfl (hself p (h.run_st hc))
      (fun q hq => by simp [LifePc.makes] at hq) fun q hq => by simp [LifePc.frees] at hq
  | @zombify c p n w hc hk hl =>
    obtain ⟨hp, hother⟩ := st_zombify (s := s) (c := c) (p := p) (n := n) (w := w)
    refine ht.step (x := .proc p) (k := .gone) ?_ (fun y r _ hr => ?_)
      (fun r hr => by simp [LifePc.makes] at hr) (fun r hr => by simp [LifePc.frees] at hr)
      (fun r hr => by simp [LifePc.Owns, LifePc.makes, LifePc.frees] at hr) (fun i hi hal => ?_)
      fun i _ => .inr (.inr rfl)
    · unfold Life.zombify
      dsimp only
      rw [tellParent_eq]
      rfl
    · have hrp : r ≠ p := by
        rintro rfl
        obtain hr | hr := ht.owned hr <;> simp [h.run_st hc] at hr
      obtain hr' | ⟨hb, -⟩ := hother r hrp
      · exact hr'
      · obtain hr | hr := ht.owned hr <;> simp [hb] at hr
    · have hip : i ≠ p := by
        rintro rfl
        exact hi rfl
      intro hal'
      obtain hi' | ⟨-, hr⟩ := hother i hip
      · rw [hi'] at hal
        exact hal hal'
      · rw [hr] at hal
        exact hal (.inl rfl)

end Life

end MyOS.Proc
