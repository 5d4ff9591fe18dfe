import MyOS.Proc.Signal

/-! No wake-up by a signal is lost, unless the signal is sent between the test for signals and the
moment the process takes `proc_lock`. -/

namespace MyOS.Proc

open Library

namespace Process

variable {p : Process} {sig : ℕ}

def Deliverable (p : Process) (sig : ℕ) : Prop :=
  sig ∈ p.pending ∧ sig ∉ p.blocked ∧ ¬ p.Ignores sig

def Takes (p : Process) (sig : ℕ) : Prop :=
  p.Receives sig ∧ (sig ∈ unblockable ∨ sig ∉ p.blocked ∧ ¬ p.Ignores sig)

lemma signalSend_pc : (p.signalSend sig).pc = p.pc := by
  simp only [signalSend, wake]
  grind
lemma signalSend_interrupted (hp : ¬ p.Interrupted) (h : (p.signalSend sig).Interrupted) :
    p.Takes sig ∧ (p.signalSend sig).state ≠ .blocked := by
  simp only [Interrupted, not_or, not_exists, not_and, not_not] at hp
  by_cases hr : p.Receives sig
  · have hkill : sig = sigkill → sig ∈ unblockable := by
      rintro rfl
      decide
    simp only [signalSend, hr, not_true_eq_false, if_false, Interrupted, wake, Ignores] at h ⊢
    simp only [Takes, hr, true_and, Ignores]
    grind
  · rw [signalSend, if_pos hr] at h
    exact absurd h (by simpa [Interrupted] using hp)

lemma state_of_signalSend (h : (p.signalSend sig).state = .blocked) : p.state = .blocked := by
  revert h
  simp only [signalSend, wake]
  grind

/-- From the test for signals on, and until the process is woken, nothing interrupts it. -/
def Quiet (p : Process) : Prop :=
  match p.pc with
  | .waking _ _ | .checked _ | .locked _ | .committing _ => ¬ p.Interrupted
  | .asleep _ => p.state = .blocked → ¬ p.Interrupted
  | _ => True

end Process

namespace SignalState

def InWindow (s : SignalState) (p : ℕ) : Prop :=
  (∃ w, (s.proc p).pc = .checked w ∧ w.lock ≠ none) ∨ ∃ w c, (s.proc p).pc = .waking w c

def Timely (s : SignalState) : SignalAction → Prop
  | .send _ p sig => (s.proc p).Takes sig → ¬ s.InWindow p
  | _ => True

def SignalSafe (s : SignalState) : Prop :=
  ∀ p w, (s.proc p).pc = .asleep w → (s.proc p).state = .blocked →
    (s.proc p).killed = false ∧ ∀ sig, ¬ (s.proc p).Deliverable sig

def Holds (s : SignalState) (p : ℕ) : Prop :=
  match (s.proc p).pc with
  | .looping w | .checked w => w.lock = none → s.procLock = some (.proc p)
  | .waking w _ => w.lock ≠ none
  | .locked w => w.lock ≠ none ∧ s.procLock = some (.proc p)
  | .committing _ | .resumed _ => s.procLock = some (.proc p)
  | _ => True

structure SignalInv (s : SignalState) : Prop where
  quiet : ∀ p, (s.proc p).Quiet
  holds : ∀ p, s.Holds p

section Steps

variable {s t : SignalState} {p r : ℕ} {q : Process} {w : Wait} {c : Channel}

@[simp] lemma setProc_self : (s.setProc p q).proc p = q := Function.update_self ..

lemma setProc_ne (h : r ≠ p) : (s.setProc p q).proc r = s.proc r := Function.update_of_ne h ..

@[simp] lemma setProc_procLock : (s.setProc p q).procLock = s.procLock := rfl

@[simp] lemma takeLock_proc : (s.takeLock p w).proc = s.proc := by
  rw [takeLock]
  split <;> rfl

@[simp] lemma dropLock_proc : (s.dropLock w).proc = s.proc := by
  rw [dropLock]
  split <;> rfl

lemma Holds.of_pc (h : s.Holds r) (hpc : (t.proc r).pc = (s.proc r).pc)
    (hl : s.procLock = some (.proc r) → t.procLock = some (.proc r)) : t.Holds r := by
  revert h
  simp only [Holds, hpc]
  split <;> tauto

lemma SignalInv.local (hs : s.SignalInv) (ht : ∀ r, r ≠ p → t.proc r = s.proc r)
    (hl : ∀ r, r ≠ p → s.procLock = some (.proc r) → t.procLock = some (.proc r))
    (hq : (t.proc p).Quiet) (hh : t.Holds p) : t.SignalInv where
  quiet r := by
    by_cases hr : r = p
    · exact hr ▸ hq
    · rw [ht r hr]
      exact hs.quiet r
  holds r := by
    by_cases hr : r = p
    · exact hr ▸ hh
    · exact (hs.holds r).of_pc (by rw [ht r hr]) (hl r hr)

lemma quiet_wake (h : q.Quiet) : q.wake.Quiet := by
  rw [Process.wake]
  split
  · revert h
    simp only [Process.Quiet, Process.Interrupted]
    split <;> simp
  · exact h

lemma wake_pc : q.wake.pc = q.pc := by
  rw [Process.wake]
  split <;> rfl

lemma SignalInv.wakeup (hs : s.SignalInv) : (s.wakeup c).SignalInv where
  quiet r := by
    simp only [SignalState.wakeup]
    split
    · exact quiet_wake (hs.quiet r)
    · exact hs.quiet r
  holds r := by
    refine (hs.holds r).of_pc ?_ id
    simp only [SignalState.wakeup]
    split
    · exact wake_pc
    · rfl

lemma quiet_signalSend {sig cpu : ℕ} (hs : s.SignalInv) (hl : s.procLock = some (.cpu cpu))
    (hw : (s.proc p).Takes sig → ¬ s.InWindow p) : ((s.proc p).signalSend sig).Quiet := by
  have hq := hs.quiet p
  have hh := hs.holds p
  have hsend : ¬ (s.proc p).Interrupted → ((s.proc p).signalSend sig).Interrupted →
      (s.proc p).Takes sig ∧ ((s.proc p).signalSend sig).state ≠ .blocked :=
    Process.signalSend_interrupted
  cases hpc : (s.proc p).pc with
  | checked w =>
    simp only [Holds, hpc, hl] at hh
    simp only [Process.Quiet, Process.signalSend_pc, hpc] at hq ⊢
    intro hi
    refine hw (hsend hq hi).1 (.inl ⟨w, hpc, fun hnone => ?_⟩)
    cases hh hnone
  | waking w c =>
    simp only [Process.Quiet, Process.signalSend_pc, hpc] at hq ⊢
    exact fun hi => hw (hsend hq hi).1 (.inr ⟨w, c, hpc⟩)
  | asleep w =>
    simp only [Process.Quiet, Process.signalSend_pc, hpc] at hq ⊢
    intro hb hi
    by_cases hblocked : (s.proc p).state = .blocked
    · exact (hsend (hq hblocked) hi).2 hb
    · exact hblocked (Process.state_of_signalSend hb)
  | locked w | committing w => simp [Holds, hpc, hl] at hh
  | _ => simp [Process.Quiet, Process.signalSend_pc, hpc]

lemma SignalInv.takeLock (hs : s.SignalInv) (hl : s.LockFree w) :
    ((s.setPc p (.looping w)).takeLock p w).SignalInv := by
  refine hs.local (p := p) (fun r hr => ?_) (fun r _ h => ?_) ?_ ?_
  · rw [takeLock_proc]
    exact setProc_ne hr
  · cases hw : w.lock with
    | none =>
      simp only [LockFree, hw, h] at hl
      cases hl
    | some l => simpa [SignalState.takeLock, hw, setPc] using h
  · simp [Process.Quiet, setPc]
  · simp only [Holds, takeLock_proc, setPc, setProc_self]
    intro hw
    simp [SignalState.takeLock, hw]

lemma SignalInv.leave (hs : s.SignalInv) (h : s.At p (.looping w)) :
    ((s.setPc p .outside).dropLock w).SignalInv := by
  have hh := hs.holds p
  simp only [Holds, h.1] at hh
  refine hs.local (p := p) (fun r hr => ?_) (fun r hr hrl => ?_) (by simp [Process.Quiet, setPc])
    (by simp [Holds, setPc])
  · rw [dropLock_proc]
    exact setProc_ne hr
  · cases hw : w.lock with
    | none =>
      rw [hh hw] at hrl
      cases hrl
      exact absurd rfl hr
    | some l => simpa [dropLock, hw, setPc] using hrl

lemma SignalInv.check (hs : s.SignalInv) (h : s.At p (.looping w)) (hi : ¬ (s.proc p).Interrupted) :
    (s.setPc p (w.wakes.elim (.checked w) (.waking w))).SignalInv := by
  have hh := hs.holds p
  simp only [Holds, h.1] at hh
  refine hs.local (p := p) (fun r hr => setProc_ne hr) (fun _ _ => id) ?_ ?_
  · cases hw : w.wakes with
    | none | some c => simpa [Process.Quiet, setPc, Process.Interrupted] using hi
  · cases hw : w.wakes with
    | none => simpa [Holds, setPc] using hh
    | some c =>
      cases w with
      | pipeWrite i => simp [Holds, setPc, Wait.lock]
      | _ => cases hw

lemma SignalInv.unlockSite (hs : s.SignalInv) (h : s.At p (.locked w)) :
    ((s.setPc p (.committing w)).dropLock w).SignalInv := by
  have hq := hs.quiet p
  have hh := hs.holds p
  simp only [Process.Quiet, Holds, h.1] at hq hh
  obtain ⟨l, hw⟩ := Option.ne_none_iff_exists'.1 hh.1
  refine hs.local (p := p) (fun r hr => ?_) (fun r _ hrl => ?_) ?_ ?_
  · rw [dropLock_proc]
    exact setProc_ne hr
  · simpa [dropLock, hw, setPc] using hrl
  · simpa [Process.Quiet, setPc, Process.Interrupted] using hq
  · simpa [Holds, setPc, dropLock, hw] using hh.2

lemma SignalInv.block (hs : s.SignalInv) (h : s.At p (.committing w) ∨ s.At p (.checked w) ∧ w.lock = none) :
    SignalInv { s.setProc p { s.proc p with channel := some (w.channel p), state := .blocked, pc := .asleep w } with
      procLock := none } := by
  have hq : ¬ (s.proc p).Interrupted ∧ s.procLock = some (.proc p) := by
    have hq := hs.quiet p
    have hh := hs.holds p
    rcases h with h | ⟨h, hw⟩
    · simp only [Process.Quiet, Holds, h.1] at hq hh
      exact ⟨hq, hh⟩
    · simp only [Process.Quiet, Holds, h.1] at hq hh
      exact ⟨hq, hh hw⟩
  refine hs.local (p := p) (fun r hr => setProc_ne hr) (fun r hr hrl => ?_) ?_ ?_
  · cases hq.2.symm.trans hrl
    exact absurd rfl hr
  · simpa [Process.Quiet, Process.Interrupted] using hq.1
  · simp [Holds]

lemma SignalInv.step {a : SignalAction} (hs : s.SignalInv) (ht : s.Timely a) (h : Step s a t) :
    t.SignalInv := by
  cases h with
  | enter h =>
    exact hs.local (fun r hr => setProc_ne hr) (fun _ _ => id) (by simp [Process.Quiet, setPc])
      (by simp [Holds, setPc])
  | lockSite h hl => exact hs.takeLock hl
  | relock h hl => exact hs.takeLock hl
  | leave h => exact hs.leave h
  | check h hi => exact hs.check h hi
  | @wakeOthers p w c h hl =>
    have hq := hs.quiet p
    have hh := hs.holds p
    simp only [Process.Quiet, Holds, h.1] at hq hh
    refine (hs.local (p := p) (fun r hr => setProc_ne hr) (fun _ _ => id) ?_ ?_).wakeup
    · simpa [Process.Quiet, setPc, Process.Interrupted] using hq
    · simp only [Holds, setProc_self]
      exact fun hnone => absurd hnone hh
  | @lockProc p w h hw hl =>
    have hq := hs.quiet p
    simp only [Process.Quiet, h.1] at hq
    refine hs.local (p := p) (fun r hr => setProc_ne hr) (fun r _ hrl => ?_) ?_ ?_
    · cases hl.symm.trans hrl
    · simpa [Process.Quiet, setPc, Process.Interrupted] using hq
    · simpa [Holds, setPc] using hw
  | unlockSite h => exact hs.unlockSite h
  | block h => exact hs.block h
  | @resume p w h hr hl =>
    refine hs.local (p := p) (fun r hr => setProc_ne hr) (fun r _ hrl => ?_) ?_ ?_
    · cases hl.symm.trans hrl
    · simp [Process.Quiet]
    · simp [Holds]
  | @unsleep p w h =>
    have hh := hs.holds p
    simp only [Holds, h.1] at hh
    cases hw : w.lock with
    | none =>
      refine hs.local (p := p) (fun r hr => setProc_ne hr) (fun _ _ => id) ?_ ?_
      · simp [Process.Quiet]
      · simpa [Holds] using fun _ => hh
    | some l =>
      refine hs.local (p := p) (fun r hr => setProc_ne hr) (fun r hr hrl => ?_) ?_ ?_
      · cases hh.symm.trans hrl
        exact absurd rfl hr
      · simp [Process.Quiet]
      · simp [Holds]
  | @preempt p w h =>
    have hpc : (s.proc p).pc = .entering w ∨ (s.proc p).pc = .relock w := h.imp And.left And.left
    refine hs.local (p := p) (fun r hr => setProc_ne hr) (fun _ _ => id) ?_ ?_ <;>
      rcases hpc with hpc | hpc <;> simp [Process.Quiet, Holds, hpc]
  | @run p w h hr =>
    refine hs.local (p := p) (fun r hr => setProc_ne hr) (fun _ _ => id) ?_ ?_ <;>
      rcases h with hpc | hpc <;> simp [Process.Quiet, Holds, hpc]
  | @elsewhere p q h hq =>
    refine hs.local (p := p) (fun r hr => setProc_ne hr) (fun _ _ => id) ?_ ?_ <;>
      simp [Process.Quiet, Holds, hq]
  | lockCpu hl | unlockCpu hl =>
    exact ⟨hs.quiet, fun r => (hs.holds r).of_pc rfl fun h => by cases hl.symm.trans h⟩
  | @send c p sig hl =>
    refine hs.local (p := p) (fun r hr => setProc_ne hr) (fun _ _ => id) ?_ ?_
    · rw [setProc_self]
      exact quiet_signalSend hs hl ht
    · refine (hs.holds p).of_pc ?_ id
      rw [setProc_self, Process.signalSend_pc]
  | wakeup hl => exact hs.wakeup
  | @expire c p hl hc =>
    refine hs.local (p := p) (fun r hr => setProc_ne hr) (fun _ _ => id) ?_ ?_
    · rw [setProc_self]
      exact quiet_wake (hs.quiet p)
    · refine (hs.holds p).of_pc ?_ id
      rw [setProc_self, wake_pc]

lemma SignalInv.safe (hs : s.SignalInv) : s.SignalSafe := by
  intro p w hpc hb
  have hq := hs.quiet p
  simp only [Process.Quiet, hpc] at hq
  have hq := hq hb
  simp only [Process.Interrupted, not_or, not_exists, not_and, Bool.not_eq_true] at hq
  exact ⟨hq.1, fun sig h => hq.2 sig h.1 h.2.1⟩

end Steps

theorem reachable_signalSafe {s : SignalState} (h : (system.guarded Timely).Reachable s) :
    s.SignalSafe := by
  refine (h.invariant (I := SignalInv) (fun s hi => ⟨fun p => ?_, fun p => ?_⟩)
    fun _ _ _ hs h => hs.step h.1 h.2).safe
  · simp [Process.Quiet, hi.2.2 p]
  · simp [Holds, hi.2.2 p]

lemma reachable_step {s t : SignalState} {c : SignalState → SignalAction → Prop} {a : SignalAction}
    (h : (system.guarded c).Reachable s) (hc : c s a) (hs : Step s a t) :
    (system.guarded c).Reachable t := .step a h ⟨hc, hs⟩

def reader : SignalState :=
  let s : SignalState :=
    ({} : SignalState).setProc 1 { state := .running, isUser := true, pc := .checked (.pipeRead 0) }
  s.takeLock 1 (.pipeRead 0)

lemma reachable_reader {c : SignalState → SignalAction → Prop}
    (hc : ∀ s, c s (.enter 1 (.pipeRead 0)) ∧ c s (.lockSite 1) ∧ c s (.check 1)) :
    (system.guarded c).Reachable reader := by
  have h₀ : (system.guarded c).Reachable
      (({} : SignalState).setProc 1 { state := .running, isUser := true }) := by
    refine .init ⟨rfl, fun _ => rfl, fun p => ?_⟩
    by_cases hp : p = 1
    · rw [hp, setProc_self]
    · rw [setProc_ne hp]
  have h₁ := reachable_step h₀ (hc _).1 (.enter (w := .pipeRead 0) ⟨rfl, rfl⟩)
  have h₂ := reachable_step h₁ (hc _).2.1 (.lockSite (w := .pipeRead 0) ⟨rfl, rfl⟩ rfl)
  have h₃ := reachable_step h₂ (hc _).2.2 (.check (w := .pipeRead 0) ⟨rfl, rfl⟩ (by
    rintro (h | ⟨sig, h, -⟩)
    · cases h
    · exact absurd h (Finset.notMem_empty _)))
  convert h₃ using 1
  simp [reader, setPc, setProc, takeLock, Wait.lock, Wait.wakes]

def sleepingReader (s : SignalState) : SignalState :=
  let s := { s.setPc 1 (.locked (.pipeRead 0)) with procLock := some (.proc 1) }
  let s := (s.setPc 1 (.committing (.pipeRead 0))).dropLock (.pipeRead 0)
  { s.setProc 1 { s.proc 1 with
      channel := some (.pipeCount 0), state := .blocked, pc := .asleep (.pipeRead 0) } with
    procLock := none }

lemma reachable_sleepingReader {s : SignalState} {c : SignalState → SignalAction → Prop}
    (h : (system.guarded c).Reachable s) (hat : s.At 1 (.checked (.pipeRead 0)))
    (hl : s.procLock = none)
    (hc : ∀ s, c s (.lockProc 1) ∧ c s (.unlockSite 1) ∧ c s (.block 1)) :
    (system.guarded c).Reachable (sleepingReader s) := by
  have hself : ∀ {s : SignalState} {pc : SleepPc}, (s.proc 1).state = .running →
      (s.setPc 1 pc).At 1 pc := fun h => ⟨by simp [setPc], by simpa [setPc] using h⟩
  have h₁ := reachable_step h (hc _).1 (.lockProc hat (by simp [Wait.lock]) hl)
  have h₂ := reachable_step h₁ (hc _).2.1 (.unlockSite (hself hat.2))
  exact reachable_step h₂ (hc _).2.2 (.block (w := .pipeRead 0) (.inl (hself (by
    simpa [setPc] using hat.2))))

theorem reachable_signalSafe_reader : ∃ s, (s.proc 1).pc = .asleep (.pipeRead 0) ∧
    (s.proc 1).state = .blocked ∧ (system.guarded Timely).Reachable s ∧ s.SignalSafe := by
  have h := reachable_sleepingReader (reachable_reader (c := Timely) fun _ => ⟨trivial, trivial, trivial⟩)
    ⟨rfl, rfl⟩ rfl fun _ => ⟨trivial, trivial, trivial⟩
  exact ⟨_, rfl, rfl, h, reachable_signalSafe h⟩

theorem not_signalSafe_window : ¬ ∀ s, system.Reachable s → s.SignalSafe := by
  intro hsafe
  have h₀ : (system.guarded fun _ _ => True).Reachable reader :=
    reachable_reader fun _ => ⟨trivial, trivial, trivial⟩
  have h₁ := reachable_step h₀ trivial (.lockCpu (c := 0) rfl)
  have h₂ := reachable_step (a := .send 0 1 sigint) h₁ trivial (.send rfl)
  have h₃ := reachable_step h₂ trivial (.unlockCpu (c := 0) rfl)
  have h₄ := reachable_sleepingReader h₃ ⟨by decide, by decide⟩ rfl
    fun _ => ⟨trivial, trivial, trivial⟩
  refine (hsafe _ h₄.of_guarded 1 (.pipeRead 0) rfl rfl).2 sigint ?_
  exact ⟨by decide, by decide, by decide⟩

end SignalState

end MyOS.Proc
