import MyOS.Proc.Signal

/-! The sleeping lock `struct mutex`, with `proc_sleep` and `proc_wakeup` under it. -/

namespace MyOS.Proc

open Library Function

inductive WaitChannel
  | mutex (m : ℕ)
  | other (c : ℕ)
  deriving DecidableEq

/-- Where a process is. At `found`, `freed` and `woken` it holds the spinlock of the mutex, at
`committing` and `resumed` it holds `proc_lock`. -/
inductive MutexPc
  | outside
  | entering (m : ℕ)
  | found (m : ℕ)
  | committing (c : WaitChannel)
  | asleep (c : WaitChannel)
  | resumed (c : WaitChannel)
  | relock (m : ℕ)
  | freed (m : ℕ)
  | woken (m : ℕ)
  deriving DecidableEq

def WaitChannel.back : WaitChannel → MutexPc
  | .mutex m => .relock m
  | .other _ => .outside

inductive MutexAction
  | call (p m : ℕ)
  | take (p m : ℕ)
  | lockProc (p : ℕ)
  | sleep (p c : ℕ)
  | block (p : ℕ)
  | resume (p : ℕ)
  | unsleep (p : ℕ)
  | unlock (p m : ℕ)
  | wakeup (p : ℕ)
  | release (p : ℕ)
  | wakeOther (c : WaitChannel)
  | signal (p : ℕ)
  | preempt (p : ℕ)
  | run (p : ℕ)

/-- The mutexes and the processes. `inside` is not in the source: the process has returned from
`mutex_lock` and has not called `mutex_unlock` since. -/
structure MutexState where
  lock : ℕ → Option ℕ
  locked : ℕ → Bool
  owner : ℕ → Option ℕ
  procLock : Option ℕ
  state : ℕ → ProcState
  channel : ℕ → Option WaitChannel
  pc : ℕ → MutexPc
  inside : ℕ → ℕ → Bool

namespace MutexState

def setPc (s : MutexState) (p : ℕ) (pc : MutexPc) : MutexState :=
  { s with pc := update s.pc p pc }

def setState (s : MutexState) (p : ℕ) (st : ProcState) : MutexState :=
  { s with state := update s.state p st }

def setChannel (s : MutexState) (p : ℕ) (c : Option WaitChannel) : MutexState :=
  { s with channel := update s.channel p c }

def setLock (s : MutexState) (m : ℕ) (o : Option ℕ) : MutexState :=
  { s with lock := update s.lock m o }

def setOwner (s : MutexState) (m : ℕ) (o : Option ℕ) : MutexState :=
  { s with locked := update s.locked m o.isSome, owner := update s.owner m o }

def setInside (s : MutexState) (p m : ℕ) (v : Bool) : MutexState :=
  { s with inside := fun q n => if q = p ∧ n = m then v else s.inside q n }

def wakeup (s : MutexState) (c : WaitChannel) : MutexState :=
  { s with state := fun p =>
      if s.state p = .blocked ∧ s.channel p = some c then .ready else s.state p }

def At (s : MutexState) (p : ℕ) (pc : MutexPc) : Prop := s.pc p = pc ∧ s.state p = .running

/-- A panic has no step: `mutex_lock` by the owner, `mutex_unlock` by another process. -/
inductive Step : MutexState → MutexAction → MutexState → Prop
  | call {s p m} (h : s.At p .outside) : Step s (.call p m) (s.setPc p (.entering m))
  | take {s p m} (h : s.At p (.entering m) ∨ s.At p (.relock m)) (hl : s.lock m = none)
      (hf : s.locked m = false) :
      Step s (.take p m) (((s.setPc p .outside).setOwner m (some p)).setInside p m true)
  | find {s p m} (h : s.At p (.entering m) ∧ s.owner m ≠ some p ∨ s.At p (.relock m))
      (hl : s.lock m = none) (hf : s.locked m = true) :
      Step s (.take p m) ((s.setPc p (.found m)).setLock m (some p))
  -- `proc_sleep(m, &m->lock)`: the spinlock is dropped once `proc_lock` is held.
  | lockProc {s p m} (h : s.At p (.found m)) (hl : s.procLock = none) :
      Step s (.lockProc p)
        { (s.setPc p (.committing (.mutex m))).setLock m none with procLock := some p }
  -- `proc_sleep` elsewhere, on a channel that is no mutex.
  | sleep {s p c} (h : s.At p .outside) (hl : s.procLock = none) :
      Step s (.sleep p c) { s.setPc p (.committing (.other c)) with procLock := some p }
  -- The scheduler drops `proc_lock` once the process has left its CPU.
  | block {s p c} (h : s.At p (.committing c)) :
      Step s (.block p)
        { ((s.setPc p (.asleep c)).setChannel p (some c)).setState p .blocked with
          procLock := none }
  | resume {s p c} (h : s.pc p = .asleep c) (hr : s.state p = .ready) (hl : s.procLock = none) :
      Step s (.resume p)
        { (s.setPc p (.resumed c)).setState p .running with procLock := some p }
  | unsleep {s p c} (h : s.At p (.resumed c)) :
      Step s (.unsleep p)
        { (s.setPc p c.back).setChannel p none with procLock := none }
  | unlock {s p m} (h : s.At p .outside) (hl : s.lock m = none) (hk : s.locked m = true)
      (ho : s.owner m = some p) :
      Step s (.unlock p m)
        ((((s.setPc p (.freed m)).setOwner m none).setInside p m false).setLock m (some p))
  | wakeup {s p m} (h : s.At p (.freed m)) (hl : s.procLock = none) :
      Step s (.wakeup p) ((s.setPc p (.woken m)).wakeup (.mutex m))
  | release {s p m} (h : s.At p (.woken m)) :
      Step s (.release p) ((s.setPc p .outside).setLock m none)
  -- A `proc_wakeup` from elsewhere, on any channel.
  | wakeOther {s c} (hl : s.procLock = none) : Step s (.wakeOther c) (s.wakeup c)
  | signal {s p} (hb : s.state p = .blocked) (hl : s.procLock = none) :
      Step s (.signal p) (s.setState p .ready)
  | preempt {s p m} (h : s.At p .outside ∨ s.At p (.entering m) ∨ s.At p (.relock m)) :
      Step s (.preempt p) (s.setState p .ready)
  | run {s p m} (h : s.pc p = .outside ∨ s.pc p = .entering m ∨ s.pc p = .relock m)
      (hr : s.state p = .ready) : Step s (.run p) (s.setState p .running)

def system : System MutexState MutexAction where
  init s := (∀ m, s.lock m = none ∧ s.locked m = false ∧ s.owner m = none) ∧ s.procLock = none ∧
    (∀ p, s.pc p = .outside ∧ s.state p ≠ .blocked) ∧ ∀ p m, s.inside p m = false
  step := Step

end MutexState

end MyOS.Proc

/-! Mutual exclusion, and no sleeper on a free mutex without a wake-up that is due. -/

namespace MyOS.Proc

open Function

namespace MutexPc

def spin : MutexPc → Option ℕ
  | .found m | .freed m | .woken m => some m
  | _ => none

def holdsProc : MutexPc → Bool
  | .committing _ | .resumed _ => true
  | _ => false

def channel : MutexPc → Option WaitChannel
  | .asleep c => some c
  | _ => none

lemma asleep_of_channel {pc : MutexPc} {c : WaitChannel} (h : pc.channel = some c) :
    pc = .asleep c := by
  cases pc with
  | asleep d => rw [Option.some.inj h]
  | _ => simp [channel] at h

end MutexPc

namespace WaitChannel

variable (c : WaitChannel)

@[grind =] lemma spin_back : c.back.spin = none := by cases c <;> rfl

@[grind =] lemma holdsProc_back : c.back.holdsProc = false := by cases c <;> rfl

@[grind =] lemma channel_back : c.back.channel = none := by cases c <;> rfl

lemma back_ne_found (m : ℕ) : c.back ≠ .found m := by cases c <;> simp [back]

lemma back_ne_committing (d : WaitChannel) : c.back ≠ .committing d := by cases c <;> simp [back]

lemma back_ne_asleep (d : WaitChannel) : c.back ≠ .asleep d := by cases c <;> simp [back]

end WaitChannel

namespace MutexState

def WakeDue (s : MutexState) (m : ℕ) : Prop := ∃ q, s.pc q = .freed m

structure MutexSafe (s : MutexState) : Prop where
  exclusive : ∀ m p q, s.inside p m = true → s.inside q m = true → p = q
  owner : ∀ m p, s.inside p m = true → s.locked m = true ∧ s.owner m = some p
  awake : ∀ m p, s.state p = .blocked → s.channel p = some (.mutex m) → s.locked m = false →
    s.WakeDue m

structure Holding (s : MutexState) : Prop where
  inside : ∀ m p, s.inside p m = true ↔ s.owner m = some p
  locked : ∀ m, s.locked m = (s.owner m).isSome
  spin : ∀ m p, s.lock m = some p ↔ (s.pc p).spin = some m
  procLock : ∀ p, s.procLock = some p ↔ (s.pc p).holdsProc = true
  blocked : ∀ p, s.state p = .blocked →
    (s.pc p).channel.isSome = true ∧ s.channel p = (s.pc p).channel
  found : ∀ m p, s.pc p = .found m → s.locked m = true

def Covered (s : MutexState) (m : ℕ) : Prop := s.locked m = true ∨ s.WakeDue m

def Waits (s : MutexState) (p m : ℕ) : Prop :=
  s.pc p = .committing (.mutex m) ∨ s.pc p = .asleep (.mutex m) ∧ s.state p = .blocked

variable {s t : MutexState} {a : MutexAction} {p m : ℕ}

lemma Holding.outside_of_free (h : Holding s) (hf : s.locked m = false) (q : ℕ) :
    s.inside q m = false := by
  by_contra hne
  have ho := (h.inside m q).1 (by simpa using hne)
  rw [h.locked, ho] at hf
  exact Bool.noConfusion hf

lemma Holding.spin_unique (h : Holding s) (q : ℕ) (hp : (s.pc p).spin = some m)
    (hq : (s.pc q).spin = some m) : p = q :=
  Option.some.inj (((h.spin m p).2 hp).symm.trans ((h.spin m q).2 hq))

lemma Holding.step (h : Holding s) (hs : Step s a t) : Holding t := by
  have hout := fun m hf q => h.outside_of_free (m := m) hf q
  have hspin := fun m p q hp hq => h.spin_unique (m := m) (p := p) q hp hq
  obtain ⟨h₁, h₂, h₃, h₄, h₅, h₆⟩ := h
  cases hs
  all_goals
    simp only [At, setPc, setState, setChannel, setLock, setOwner, setInside, wakeup] at *
    constructor
    all_goals grind [MutexPc.spin, MutexPc.holdsProc, MutexPc.channel, update,
      WaitChannel.back_ne_found]

lemma Covered.step (hs : Step s a t) (hc : s.Covered m)
    (hw : ∀ p, a = .wakeup p → s.pc p ≠ .freed m) : t.Covered m := by
  by_cases hd : t.WakeDue m
  · exact .inr hd
  left
  have hnot : ∀ q, t.pc q ≠ .freed m := fun q hq => hd ⟨q, hq⟩
  rcases hc with hl | ⟨q, hq⟩
  · cases hs with
    | @unlock p n hat hlk hk ho =>
      by_cases hn : n = m
      · exact absurd (by simp [hn, setPc, setOwner, setInside, setLock]) (hnot p)
      · simpa [setPc, setOwner, setInside, setLock, Ne.symm hn] using hl
    | _ =>
      simp only [At, setPc, setState, setChannel, setLock, setOwner, setInside, wakeup] at *
      grind [update]
  · exfalso
    apply hnot q
    cases hs
    all_goals
      simp only [At, setPc, setState, setChannel, setLock, setOwner, setInside, wakeup] at *
      grind [update]

lemma Waits.step_back (hs : Step s a t) (hw : t.Waits p m) : s.Waits p m ∨ s.pc p = .found m := by
  unfold Waits at *
  cases hs
  all_goals
    simp only [At, setPc, setState, setChannel, setLock, setOwner, setInside, wakeup] at *
    grind [update, WaitChannel.back_ne_found, WaitChannel.back_ne_committing,
      WaitChannel.back_ne_asleep]

lemma not_waits_of_wakeup (h : Holding s) {q : ℕ} (hs : Step s (.wakeup q) t)
    (hq : s.pc q = .freed m) : ¬ t.Waits p m := by
  intro hw
  cases hs with
  | @wakeup _ m' hat hl =>
    obtain rfl : m' = m := by
      have := hat.1.symm.trans hq
      exact MutexPc.freed.inj this
    have hcommit : s.pc p ≠ .committing (.mutex m') := by
      intro hp
      have := (h.procLock p).2 (by rw [hp]; rfl)
      rw [hl] at this
      cases this
    have hblocked := h.blocked p
    simp only [Waits, setPc, wakeup] at hw
    grind [update, MutexPc.channel]

lemma covered_step (h : Holding s) (hs : Step s a t) (hc : ∀ p m, s.Waits p m → s.Covered m) :
    ∀ p m, t.Waits p m → t.Covered m := by
  intro p m hw
  by_cases hwake : ∃ q, a = .wakeup q ∧ s.pc q = .freed m
  · obtain ⟨q, rfl, hq⟩ := hwake
    exact absurd hw (not_waits_of_wakeup h hs hq)
  · have hcs : s.Covered m := by
      rcases hw.step_back hs with hw | hf
      · exact hc p m hw
      · exact .inl (h.found m p hf)
    exact hcs.step hs fun q hq hpc => hwake ⟨q, hq, hpc⟩

lemma Holding.safe (h : Holding s) (hc : ∀ p m, s.Waits p m → s.Covered m) : MutexSafe s := by
  refine ⟨?_, ?_, ?_⟩
  · intro m p q hp hq
    exact Option.some.inj (((h.inside m p).1 hp).symm.trans ((h.inside m q).1 hq))
  · intro m p hp
    have ho := (h.inside m p).1 hp
    exact ⟨by rw [h.locked, ho]; rfl, ho⟩
  · intro m p hb hch hfree
    have hpc : s.pc p = .asleep (.mutex m) :=
      MutexPc.asleep_of_channel ((h.blocked p hb).2.symm.trans hch)
    rcases hc p m (.inr ⟨hpc, hb⟩) with hl | hd
    · rw [hfree] at hl
      exact Bool.noConfusion hl
    · exact hd

theorem reachable_mutexSafe (h : system.Reachable s) : MutexSafe s := by
  have hinv : Holding s ∧ ∀ p m, s.Waits p m → s.Covered m := by
    refine h.invariant (I := fun s => Holding s ∧ ∀ p m, s.Waits p m → s.Covered m) ?_ ?_
    · rintro s ⟨hfree, hproc, hpc, hin⟩
      constructor
      · constructor <;> grind [MutexPc.spin, MutexPc.holdsProc]
      · intro p m hw
        simp [Waits, (hpc p).1] at hw
    · intro s a t hs hst
      exact ⟨hs.1.step hst, covered_step hs.1 hst hs.2⟩
  exact hinv.1.safe hinv.2

section Witness

def idle : MutexState where
  lock _ := none
  locked _ := false
  owner _ := none
  procLock := none
  state _ := .running
  channel _ := none
  pc _ := .outside
  inside _ _ := false

def contended : { s : MutexState // system.Reachable s } :=
  have h₁ : system.Reachable _ := .step (.take 1 7) (.step (.call 1 7) (.init (s := idle)
    ⟨fun _ => ⟨rfl, rfl, rfl⟩, rfl, fun _ => ⟨rfl, fun h => by cases h⟩, fun _ _ => rfl⟩)
    (.call ⟨rfl, rfl⟩)) (.take (.inl ⟨rfl, rfl⟩) rfl rfl)
  have h₂ : system.Reachable _ := .step (.take 2 7) (.step (.call 2 7) h₁ (.call ⟨rfl, rfl⟩))
    (.find (.inl ⟨⟨rfl, rfl⟩, by decide⟩) rfl rfl)
  ⟨_, .step (.block 2) (.step (.lockProc 2) h₂ (.lockProc (m := 7) ⟨rfl, rfl⟩ rfl)) (.block ⟨rfl, rfl⟩)⟩

def handedOver : { s : MutexState // system.Reachable s } :=
  have h₁ : system.Reachable _ := .step (.wakeup 1) (.step (.unlock 1 7) contended.2 (.unlock ⟨rfl, rfl⟩ rfl rfl rfl))
    (.wakeup (m := 7) ⟨rfl, rfl⟩ rfl)
  have h₂ : system.Reachable _ := .step (.resume 2) (.step (.release 1) h₁ (.release (m := 7) ⟨rfl, rfl⟩))
    (.resume rfl rfl rfl)
  ⟨_, .step (.take 2 7) (.step (.unsleep 2) h₂ (.unsleep (c := .mutex 7) ⟨rfl, rfl⟩)) (.take (.inr ⟨rfl, rfl⟩) rfl rfl)⟩

theorem reachable_mutexSafe_handedOver : contended.1.inside 1 7 = true ∧ contended.1.state 2 = .blocked ∧
    handedOver.1.inside 1 7 = false ∧ handedOver.1.inside 2 7 = true ∧ MutexSafe handedOver.1 :=
  ⟨rfl, rfl, rfl, rfl, reachable_mutexSafe handedOver.2⟩

end Witness

end MutexState

end MyOS.Proc
