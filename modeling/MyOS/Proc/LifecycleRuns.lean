import MyOS.Proc.LifecycleFamily

/-! What holds in every state that the processes of a kernel come to. -/

namespace MyOS.Proc

open Library Function

def ProcState.Chain : ProcState → ProcState → Prop
  | .unused, .embryo | .embryo, .ready | .embryo, .unused | .ready, .running | .running, .ready
  | .running, .blocked | .running, .stopped | .blocked, .running | .stopped, .running | .blocked, .zombie
  | .stopped, .zombie | .zombie, .dead | .dead, .unused => True
  | _, _ => False

namespace Life

variable {C : Type} {s t : Life C} {c : C} {x : Ctx C} {p q : Slot}

def Moves (s t : Life C) (q : Slot) : Prop :=
  t.st q = s.st q ∨ (s.st q).Next (t.st q) ∧ (s.st q = .zombie → ∃ w,
    t.reaped = { pid := (s.procs q).pid, ppid := (s.procs q).ppid, waiter := w } :: s.reaped)

section Moves

lemma moves_of_ne (h : (s.st q).Next (t.st q)) (hq : s.st q ≠ .zombie) : s.Moves t q :=
  .inr ⟨h, fun hz => absurd hz hq⟩

lemma moves_update {o : ProcState} (hst : t.st = update s.st p o) (h : (s.st p).Next o)
    (hp : s.st p ≠ .zombie) (q : Slot) : s.Moves t q := by
  by_cases hq : q = p
  · subst hq
    refine moves_of_ne ?_ hp
    rwa [hst, update_self]
  · exact .inl (by rw [hst, update_of_ne hq])

lemma moves_of_woken (h : t.st q = s.st q ∨ s.st q = .blocked ∧ t.st q = .ready) : s.Moves t q := by
  obtain h | ⟨hb, hr⟩ := h
  · exact .inl h
  · refine moves_of_ne ?_ (by simp [hb])
    rw [hb, hr]
    trivial

lemma Calm.moves (h : s.Calm t) (q : Slot) : s.Moves t q := by
  refine (h.st q).imp_right fun hal => ⟨hal.2, fun hz => ?_⟩
  simp [hz, ProcState.Alive] at hal

lemma moves_mark {w : Option ℕ} (hp : s.st p = .zombie) (hst : t.st = update s.st p .dead)
    (hlog : t.reaped = { pid := (s.procs p).pid, ppid := (s.procs p).ppid, waiter := w } :: s.reaped)
    (q : Slot) : s.Moves t q := by
  by_cases hq : q = p
  · subst hq
    refine .inr ⟨?_, fun _ => ⟨w, hlog⟩⟩
    rw [hst, update_self, hp]
    trivial
  · exact .inl (by rw [hst, update_of_ne hq])

variable [DecidableEq C] {boot : C}

lemma moves_waitRound {pid : ℤ} {u n w : Bool} (hp : s.st p = .running) (q : Slot) :
    s.Moves (s.waitRound c p pid u n w) q := by
  unfold Life.waitRound
  split
  · rename_i r hr
    split_ifs with hz
    · exact moves_mark (p := r) (w := some (s.procs p).pid) hz (st_markDead (o := some (s.procs p).pid)) rfl q
    · exact .inl (congrFun st_reported q)
  · split_ifs
    · exact .inl rfl
    · exact (calm_block (some (.of (.proc p))) hp).moves q

lemma Step.moves (hs : Step boot s c t) (h : s.Cpus) (ht : s.Threads) (q : Slot) : s.Moves t q := by
  cases hs with
  | move | noneReady | switchIn | switchOut | unlock | noSlot | reaped | swap | exec => exact .inl rfl
  | pick _ _ _ hp => exact (calm_pick hp).moves q
  | resume => exact calm_chan.moves q
  | yield hc => exact (calm_ready (h.run_st hc)).moves q
  | sleep hc => exact (calm_block _ (h.run_st hc)).moves q
  | stop hc => exact (calm_stop (h.run_st hc)).moves q
  | wake _ hr => exact (calm_wake hr).moves q
  | kill | setPgid => refine Calm.moves (calm_setProc ?_ ?_ ?_ (.inl ?_)) q <;> rfl
  | @alloc c x r k hx hk hl hr =>
    have hu := st_firstUnused hr
    refine moves_update (p := r) (o := .embryo) st_alloc ?_ (by simp [hu]) q
    rw [hu]
    trivial
  | @undo c x r k hx hk hl =>
    have he := ht.makes x r (by rw [hk]; rfl)
    refine moves_update (p := r) (o := .unused) st_setState ?_ (by simp [he]) q
    rw [he]
    trivial
  | @makeReady c x r hx hk hl =>
    have he := ht.makes x r (by rw [hk]; rfl)
    refine moves_update (p := r) (o := .ready) st_setState ?_ (by simp [he]) q
    rw [he]
    trivial
  | @wait c p pid u n w hc => exact moves_waitRound (h.run_st hc) q
  | @waitAgain c p pid u n w hc =>
    have hp : (s.setProc p { s.procs p with chan := none }).st = s.st := st_chan
    have hkin := (calm_chan (s := s) (p := p)).kin q
    have hm : Life.Moves (s.setProc p { s.procs p with chan := none })
        ((s.setProc p { s.procs p with chan := none }).waitRound c p pid u n w) q :=
      moves_waitRound (by rw [hp]; exact h.running c p (by rw [hc]; rfl)) q
    unfold Moves at hm ⊢
    rwa [hp, hkin.1, hkin.2.1] at hm
  | @reap c i hc hk hl =>
    unfold reapRound
    split_ifs with hz
    · exact moves_mark (p := i) (w := none) hz.1 (st_markDead (o := none)) rfl q
    · exact .inl rfl
  | @freed c x r b hx hk hl =>
    obtain hd | hd := ht.frees x r (by rw [hk]; rfl)
    all_goals
      refine moves_update (p := r) (o := .unused) st_setState ?_ (by simp [hd]) q
      rw [hd]
      trivial
  | @zombify c p n w hc hk hl =>
    obtain ⟨hp, hother⟩ := st_zombify (s := s) (c := c) (p := p) (n := n) (w := w)
    by_cases hq : q = p
    · subst hq
      refine moves_of_ne ?_ (by simp [h.run_st hc])
      rw [h.run_st hc, hp]
      trivial
    · exact moves_of_woken (hother q hq)

end Moves

variable [DecidableEq C] {boot : C}

lemma Family.waitRound (h : s.Family) {pid : ℤ} {u n w : Bool} (hp : s.st p = .running) :
    (s.waitRound c p pid u n w).Family := by
  unfold Life.waitRound
  split
  · rename_i q hq
    split_ifs with hz
    · obtain ⟨⟨hu, hpar, -⟩, -⟩ := waitScan_spec hq
      refine (h.mark (q := q) (o := some (s.procs p).pid) hz fun n hn => ?_).alter rfl rfl sameKin_refl
        fun i => .inl rfl
      rw [← hn]
      exact (h.parent p q hu hpar).2
    · exact (h.calm (calm_setProc (q := q) (o := { s.procs q with stopReported := true }) rfl rfl rfl
        (.inl rfl))).alter rfl rfl sameKin_refl fun i => .inl rfl
  · split_ifs
    · exact h.alter rfl rfl sameKin_refl fun i => .inl rfl
    · exact (h.calm (calm_block (some (.of (.proc p))) hp)).alter rfl rfl sameKin_refl
        fun i => .inl rfl

lemma Step.family (hs : Step boot s c t) (h : s.Family) (hc : s.Cpus) (ht : s.Threads) : t.Family := by
  cases hs with
  | move | noneReady | switchIn | switchOut | unlock | noSlot | reaped | swap | exec =>
    exact h.alter rfl rfl sameKin_refl fun i => .inl rfl
  | pick _ _ _ hp => exact h.calm (calm_pick hp)
  | resume => exact h.calm calm_chan.setCpu
  | yield hcp => exact h.calm (calm_ready (hc.run_st hcp)).setCpu
  | sleep hcp => exact h.calm (calm_block _ (hc.run_st hcp)).setCpu
  | stop hcp => exact h.calm (calm_stop (hc.run_st hcp))
  | wake _ hq => exact h.calm (calm_wake hq)
  | kill | setPgid => exact h.calm (calm_setProc rfl rfl rfl (.inl rfl))
  | @alloc c x q k hx hk hl hq => exact h.alloc (hc.acts_st hx) (st_firstUnused hq)
  | @undo c x q k hx hk hl =>
    exact h.settle rfl rfl (sameKin_setState (q := q) (o := .unused)) st_setState
      (.inl (ht.makes x q (by rw [hk]; rfl))) fun _ => rfl
  | @makeReady c x q hx hk hl =>
    have he := ht.makes x q (by rw [hk]; rfl)
    exact h.settle rfl rfl (sameKin_setState (q := q) (o := .ready)) st_setState (.inl he) fun hd => by
      simp [he] at hd
  | @wait c p pid u n w hcp => exact h.waitRound (hc.run_st hcp)
  | @waitAgain c p pid u n w hcp =>
    refine (h.calm calm_chan).waitRound ?_
    rw [st_chan]
    exact hc.running c p (by rw [hcp]; rfl)
  | @reap c i hcp hk hl =>
    unfold reapRound
    split_ifs with hz
    · exact (h.mark (q := i) (o := none) hz.1 fun n hn => by simp at hn).alter rfl rfl sameKin_refl
        fun i => .inl rfl
    · exact h.alter rfl rfl sameKin_refl fun i => .inl rfl
  | @freed c x q b hx hk hl =>
    exact h.settle rfl rfl (sameKin_setState (q := q) (o := .unused)) st_setState
      (ht.frees x q (by rw [hk]; rfl)) fun _ => rfl
  | @zombify c p n w hcp hk hl => exact h.zombify (hc.run_st hcp)

omit [DecidableEq C] in
lemma cpus_initial : (initial : Life C).Cpus := by
  constructor <;> simp [initial, st, CpuPc.Locked, CpuPc.proc, CpuPc.Runs]

omit [DecidableEq C] in
lemma threads_initial : (initial : Life C).Threads := by
  constructor <;> simp [initial, LifePc.makes, LifePc.frees]

omit [DecidableEq C] in
lemma stock_initial : (initial : Life C).Stock := by
  refine ⟨Ledger.exact_empty, fun q => ?_, fun x => threadStock_of_user rfl⟩
  constructor <;> simp [initial, st, ProcState.Alive]

omit [DecidableEq C] in
lemma family_initial : (initial : Life C).Family := by
  constructor <;> simp [initial, st]

structure Sound (s : Life C) : Prop where
  cpus : s.Cpus
  threads : s.Threads
  stock : s.Stock
  family : s.Family

lemma sound (h : (system boot).Reachable s) : s.Sound := by
  refine h.invariant ?_ fun s c t ih hs => ?_
  · rintro _ rfl
    exact ⟨cpus_initial, threads_initial, stock_initial, family_initial⟩
  · exact ⟨hs.cpus ih.cpus ih.threads, hs.threads ih.cpus ih.threads, hs.stock ih.stock ih.cpus ih.threads,
      hs.family ih.family ih.cpus ih.threads⟩

omit [DecidableEq C] in
lemma Sound.stack (h : s.Sound) (hp : (s.cpu c).proc = some p) : s.res.held (p, .kstack) ≠ none := by
  refine (h.stock.slot p).stack ?_
  obtain hr | hl := CpuPc.runs_or_leave hp
  · rw [h.cpus.running c p hr]
    exact .inl (.inr (.inl rfl))
  · obtain ⟨hu, he, hd⟩ := h.cpus.leaving c p hl
    unfold ProcState.Alive
    cases hst : s.st p <;> simp [hst] at hu he hd ⊢

theorem lifecycle (h : (system boot).Reachable s) :
    (∀ c t q, Step boot s c t → s.Moves t q) ∧
    (∀ c d p, (s.cpu c).proc = some p → (s.cpu d).proc = some p → c = d) ∧
    (∀ p, s.st p = .running ↔ ∃ c, (s.cpu c).Runs p) ∧
    (∀ c p, (s.cpu c).proc = some p → s.res.held (p, .kstack) ≠ none) ∧
    s.res.Exact ∧ (∀ q f, s.st q = .unused → s.res.held (q, f) = none) ∧
    (∀ x q, (s.pc x).Owns q → s.st q ≠ .unused) ∧
    (s.reaped.map Reaped.pid).Nodup ∧ (∀ e ∈ s.reaped, ∀ n, e.waiter = some n → e.ppid = some n) := by
  have hs := sound h
  refine ⟨fun c t q hst => hst.moves hs.cpus hs.threads q, hs.cpus.sole, fun p => ⟨hs.cpus.runs p, ?_⟩,
    fun c p => hs.stack, hs.stock.exact, fun q f => (hs.stock.slot q).unused f, fun x q hq hu => ?_,
    hs.family.nodup, hs.family.waiter⟩
  · rintro ⟨c, hc⟩
    exact hs.cpus.running c p hc
  · obtain hd | hd := hs.threads.owned hq <;> simp [hu] at hd

def slept : Life Bool :=
  let s : Life Bool := initial.alloc (.idle false) 0 .kthread
  let s := { s.setPc (.idle false) (.cwd 0 .kthread) with res := s.res.acquire (0, .kstack) }
  let s := { s.setPc (.idle false) (.ready 0) with res := s.res.acquire (0, .cwd) }
  let s := (s.setState 0 .ready).setPc (.idle false) .user
  let s := { s.setState 0 .running with rrNext := 1 }.setCpu true (some true) (.into 0)
  let s := s.setCpu true (some true) (.enter 0)
  let s := (s.setProc 0 { s.procs 0 with chan := none }).setCpu true none (.run 0)
  let s := (s.setProc 0 { s.procs 0 with state := .blocked, chan := some (.other 0) }).setCpu true (some true)
    (.leave 0)
  let s := s.setCpu true (some true) .back
  s.setCpu true none .sched

lemma slept_reachable : (system false).Reachable slept := by
  refine .step true ?_ (.unlock rfl)
  refine .step true ?_ (.switchOut (p := 0) rfl)
  refine .step true ?_ (.sleep rfl rfl)
  refine .step true ?_ (.resume rfl (fun pid u n hw => nomatch (show LifePc.user = .wait pid u n from hw)))
  refine .step true ?_ (.switchIn rfl)
  refine .step true ?_ (.pick rfl rfl rfl (by decide))
  refine .step false ?_ (.makeReady (.inr ⟨rfl, rfl⟩) rfl rfl)
  refine .step false ?_ (.move (.inr ⟨rfl, rfl⟩) .cwd)
  refine .step false ?_ (.move (.inr ⟨rfl, rfl⟩) .stack)
  exact .step false (.init rfl) (.alloc (.inr ⟨rfl, rfl⟩) (.inl ⟨rfl, rfl⟩) rfl (by decide))

theorem lifecycle_slept : slept.res.Exact ∧ ∀ c t q, Step false slept c t → slept.Moves t q :=
  ⟨(lifecycle slept_reachable).2.2.2.2.1, (lifecycle slept_reachable).1⟩

theorem not_lifecycle_chain : ¬ ∀ s : Life Bool, (system false).Reachable s →
    ∀ c t q, Step false s c t → t.st q = s.st q ∨ (s.st q).Chain (t.st q) := by
  intro h
  obtain hst | hst := h slept slept_reachable false _ 0 (.wake (q := 0) rfl (.inl rfl))
  · exact absurd (show ProcState.ready = .blocked from hst) (by decide)
  · exact (show ProcState.Chain .blocked .ready from hst)

end Life

end MyOS.Proc
