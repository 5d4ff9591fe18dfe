import MyOS.Proc.Signal

/-! The delivery of signals: what a process does in `signal_deliver` and `proc_stop_self`, step by step,
while others send it signals. -/

namespace MyOS.Proc

open Library

def sigill : ℕ := 4
def sigtrap : ℕ := 5
def sigbus : ℕ := 7
def sigfpe : ℕ := 8
def sigsegv : ℕ := 11

def exceptionSignals : Finset ℕ := {sigfpe, sigtrap, sigill, sigbus, sigsegv}

def maskSet (w : BitVec 64) : Finset ℕ := (Finset.range 32).filter fun i => w.getLsbD i

structure SigRest where
  flags : BitVec 64 := 0
  restorer : BitVec 64 := 0
  mask : BitVec 64 := 0

namespace SigRest

variable (a : SigRest)

def Restorer : Prop := a.flags &&& 0x04000000 ≠ 0 ∧ a.restorer ≠ 0
def Nodefer : Prop := a.flags &&& 0x40000000 ≠ 0
def Resethand : Prop := a.flags &&& 0x80000000 ≠ 0

instance : Decidable a.Nodefer := by
  unfold Nodefer
  infer_instance

instance : Decidable a.Resethand := by
  unfold Resethand
  infer_instance

end SigRest

/-- Where a process is in `signal_deliver`: outside of it, at the head of its loop, before its critical
section, before and in the sleep of `proc_stop_self`, before the critical section of `setup_frame`,
or in `proc_exit` or `proc_exit_signal`. -/
inductive DeliverPc
  | outside
  | start
  | checked
  | stopping (sig : ℕ)
  | stopped
  | framing (sig : ℕ) (a : SigRest)
  | exiting (sig : Option ℕ)

structure Task extends Process where
  rest : ℕ → SigRest := fun _ => {}
  place : DeliverPc := .outside
  job : Option ℕ := none

namespace Task

variable (t : Task)

def send (sig : ℕ) : Task :=
  { t with
    toProcess := t.signalSend sig
    job := if t.Receives sig ∧ (sig = sigcont ∨ defaultStop sig = true) then some sig else t.job }

def nextSignal : ℕ :=
  if t.killed then sigkill
  else if sigkill ∈ t.pending \ t.blocked then sigkill
  else (t.pending \ t.blocked).min.untopD 0

def act (sig : ℕ) : DeliverPc :=
  match t.handler sig with
  | .ign => .start
  | .dfl =>
    if defaultIgnore sig then .start
    else if defaultStop sig then .stopping sig
    else .exiting (some sig)
  | .user _ => .framing sig (t.rest sig)

def take : Task :=
  if t.nextSignal = 0 then { t with place := .outside }
  else { t with pending := t.pending.erase t.nextSignal, place := t.act t.nextSignal }

def stopSelf : Task :=
  if t.killed then { t with place := .start } else { t with state := .stopped, place := .stopped }

def frame (sig : ℕ) (a : SigRest) : Task :=
  let blocked := t.blocked ∪ (maskSet a.mask \ unblockable)
  { t with
    blocked := if a.Nodefer then blocked else insert sig blocked
    handler := if a.Resethand then Function.update t.handler sig .dfl else t.handler
    place := .outside }

def sigaction (sig : ℕ) (h : SigHandler) (a : SigRest) : Task :=
  { t with
    handler := Function.update t.handler sig h
    rest := Function.update t.rest sig
      { a with mask := a.mask &&& ~~~((1 : BitVec 64) <<< 9 ||| (1 : BitVec 64) <<< 19) }
    pending := if h = .ign ∨ h = .dfl ∧ defaultIgnore sig = true then t.pending.erase sig
      else t.pending }

def sigprocmask (how set : BitVec 64) : Task :=
  let m := maskSet set \ unblockable
  if how = 0 then { t with blocked := t.blocked ∪ m }
  else if how = 1 then { t with blocked := t.blocked \ m }
  else if how = 2 then { t with blocked := m }
  else t

/-- `signal_force`, and `proc_exit_signal` where it says that nobody handles the signal. -/
def force (sig : ℕ) : Task :=
  let t := if t.handler sig = .ign ∨ sig ∈ t.blocked then
      { t with handler := Function.update t.handler sig .dfl, blocked := t.blocked.erase sig }
    else t
  { t with
    pending := insert sig t.pending
    place := if t.handler sig = .dfl then .exiting (some sig) else .outside }

def execReset (sig : ℕ) : Task :=
  if t.handler sig = .ign then t
  else { t with
    handler := Function.update t.handler sig .dfl
    rest := Function.update t.rest sig {} }

section State

variable {t} {sig : ℕ}

@[simp]
lemma take_state : t.take.state = t.state := by
  unfold take
  split_ifs <;> rfl

@[simp]
lemma sigprocmask_state {how set : BitVec 64} : (t.sigprocmask how set).state = t.state := by
  unfold sigprocmask
  dsimp only
  split_ifs <;> rfl

@[simp]
lemma force_state : (t.force sig).state = t.state := by
  unfold force
  dsimp only
  split_ifs <;> rfl

@[simp]
lemma execReset_state : (t.execReset sig).state = t.state := by
  unfold execReset
  split_ifs <;> rfl

end State

def child : Task :=
  if t.isIdle then { state := .embryo }
  else { state := .embryo, handler := t.handler, rest := t.rest, blocked := t.blocked }

end Task

abbrev DeliveryState := ℕ → Task

inductive DeliveryAction
  | send (sig : ℕ)
  | enter
  | check
  | take
  | stop
  | resume
  | frame
  | frameFails
  | exit
  | sysExit
  | sigaction (sig : ℕ) (h : SigHandler) (a : SigRest)
  | sigprocmask (how set : BitVec 64)
  | sigreturn (mask : BitVec 64)
  | sigreturnFails
  | force (sig : ℕ)
  | execReset (sig : ℕ)
  | alloc (parent : ℕ)
  | becomeUser
  | makeReady
  | free
  | reap
  | schedule
  | preempt
  | block
  | wake

def Task.At (t : Task) (l : DeliverPc) : Prop := t.state = .running ∧ t.place = l

/-- What one step of the system makes of the process `p`. Sends to others, such as `SIGCHLD` to the
parent of a process that stops, are steps of their own. -/
inductive Move (s : DeliveryState) (p : ℕ) : DeliveryAction → Task → Prop
  | send (sig : ℕ) : Move s p (.send sig) ((s p).send sig)
  | enter (h : (s p).At .outside) (hu : (s p).isUser = true) :
      Move s p .enter { s p with place := .start }
  | check (h : (s p).At .start) :
      Move s p .check
        { s p with place := if (s p).killed then .exiting (some sigkill) else .checked }
  | take (h : (s p).At .checked) : Move s p .take (s p).take
  | stop {sig} (h : (s p).At (.stopping sig)) : Move s p .stop (s p).stopSelf
  | resume (h : (s p).At .stopped) : Move s p .resume { s p with place := .start }
  | frame {sig a} (h : (s p).At (.framing sig a)) (hr : a.Restorer) :
      Move s p .frame ((s p).frame sig a)
  -- Without a restorer, or when the frame cannot be written.
  | frameFails {sig a} (h : (s p).At (.framing sig a)) :
      Move s p .frameFails { s p with place := .exiting (some sigsegv) }
  | exit {sig} (h : (s p).At (.exiting sig)) : Move s p .exit { s p with state := .zombie }
  | sysExit (h : (s p).At .outside) : Move s p .sysExit { s p with place := .exiting none }
  | sigaction {sig handler a} (h : (s p).At .outside) (h0 : sig ≠ 0) (hn : sig < nsig)
      (hu : sig ∉ unblockable) :
      Move s p (.sigaction sig handler a) ((s p).sigaction sig handler a)
  | sigprocmask {how set} (h : (s p).At .outside) :
      Move s p (.sigprocmask how set) ((s p).sigprocmask how set)
  -- The mask comes from a frame that the user may have written.
  | sigreturn {mask} (h : (s p).At .outside) :
      Move s p (.sigreturn mask) { s p with blocked := maskSet mask \ unblockable }
  | sigreturnFails (h : (s p).At .outside) :
      Move s p .sigreturnFails { s p with place := .exiting (some sigsegv) }
  | force {sig} (h : (s p).At .outside) (hs : sig ∈ exceptionSignals) :
      Move s p (.force sig) ((s p).force sig)
  | execReset {sig} (h : (s p).At .outside ∨ (s p).state = .embryo) :
      Move s p (.execReset sig) ((s p).execReset sig)
  -- A slot of the table that is used again is another process here.
  | alloc {q} (h : (s p).state = .unused) (hq : (s q).At .outside) :
      Move s p (.alloc q) (s q).child
  | becomeUser (h : (s p).state = .embryo) : Move s p .becomeUser { s p with isUser := true }
  | makeReady (h : (s p).state = .embryo) : Move s p .makeReady { s p with state := .ready }
  | free (h : (s p).state = .embryo) : Move s p .free { s p with state := .dead }
  | reap (h : (s p).state = .zombie) : Move s p .reap { s p with state := .dead }
  | schedule (h : (s p).state = .ready) : Move s p .schedule { s p with state := .running }
  | preempt (h : (s p).state = .running) : Move s p .preempt { s p with state := .ready }
  | block (h : (s p).state = .running) : Move s p .block { s p with state := .blocked }
  | wake (h : (s p).state = .blocked) : Move s p .wake { s p with state := .ready }

def delivery : System DeliveryState (ℕ × DeliveryAction) where
  init s := ∀ p, s p = {} ∨ s p = { state := .running, isIdle := true }
  step s a s' := ∃ t, Move s a.1 a.2 t ∧ s' = Function.update s a.1 t

end MyOS.Proc

/-! `SIGKILL` and `SIGSTOP` cannot be evaded. -/

namespace MyOS.Proc

open Library

namespace Task

variable {t : Task} {sig : ℕ}

structure Safe (t : Task) : Prop where
  blocked : ∀ sig ∈ unblockable, sig ∉ t.blocked
  handler : ∀ sig ∈ unblockable, t.handler sig = .dfl
  framing : ∀ sig a, t.place = .framing sig a → sig ∉ unblockable
  killed : t.killed = true → t.state ≠ .stopped

lemma not_mem_sdiff {b : Finset ℕ} (h : sig ∈ unblockable) : sig ∉ b \ unblockable := by
  simp [h]

lemma Safe.of_place {l : DeliverPc} (h : t.Safe) (hl : ∀ sig a, l ≠ .framing sig a) :
    Safe { t with place := l } :=
  ⟨h.blocked, h.handler, fun sig a hp => absurd hp (hl sig a), h.killed⟩

lemma Safe.of_state {st : ProcState} (h : t.Safe) (hst : st ≠ .stopped) :
    Safe { t with state := st } :=
  ⟨h.blocked, h.handler, h.framing, fun _ => hst⟩

lemma signalSend_blocked (p : Process) : (p.signalSend sig).blocked = p.blocked := by
  simp only [Process.signalSend, Process.wake]
  grind

lemma signalSend_handler (p : Process) : (p.signalSend sig).handler = p.handler := by
  simp only [Process.signalSend, Process.wake]
  grind

lemma signalSend_killed (p : Process) (h : p.killed = true → p.state ≠ .stopped)
    (hk : (p.signalSend sig).killed = true) : (p.signalSend sig).state ≠ .stopped := by
  have hkill : sig = sigkill → sig ∈ unblockable := by
    rintro rfl
    decide
  revert hk
  simp only [Process.signalSend, Process.wake]
  grind

lemma Safe.send (h : t.Safe) : (t.send sig).Safe := by
  refine ⟨?_, ?_, h.framing, signalSend_killed t.toProcess h.killed⟩
  · intro k hk
    change k ∉ (t.signalSend sig).blocked
    rw [signalSend_blocked]
    exact h.blocked k hk
  · intro k hk
    change (t.signalSend sig).handler k = .dfl
    rw [signalSend_handler]
    exact h.handler k hk

lemma act_framing {k : ℕ} {a : SigRest} (h : t.act sig = .framing k a) :
    k = sig ∧ t.handler sig ≠ .dfl := by
  unfold act at h
  grind

lemma Safe.take (h : t.Safe) : t.take.Safe := by
  unfold Task.take
  split_ifs
  · exact h.of_place fun _ _ => by simp
  · refine ⟨h.blocked, h.handler, fun k a hp => ?_, h.killed⟩
    obtain ⟨rfl, hd⟩ := act_framing hp
    exact fun hk => hd (h.handler _ hk)

lemma Safe.stopSelf (h : t.Safe) : t.stopSelf.Safe := by
  unfold Task.stopSelf
  split_ifs with hk
  · exact h.of_place fun _ _ => by simp
  · exact ⟨h.blocked, h.handler, fun _ _ hp => absurd hp (by simp), fun hk' => absurd hk' hk⟩

lemma update_dfl (h : ∀ k ∈ unblockable, t.handler k = .dfl) :
    ∀ k ∈ unblockable, Function.update t.handler sig .dfl k = .dfl := by
  intro k hk
  by_cases hs : k = sig
  · rw [hs, Function.update_self]
  · rw [Function.update_of_ne hs]
    exact h k hk

lemma Safe.frame {a : SigRest} (h : t.Safe) (hs : sig ∉ unblockable) : (t.frame sig a).Safe := by
  have hmask : ∀ k ∈ unblockable, k ∉ t.blocked ∪ (maskSet a.mask \ unblockable) := by
    intro k hk hm
    obtain hb | hb := Finset.mem_union.1 hm
    · exact h.blocked k hk hb
    · exact not_mem_sdiff hk hb
  refine ⟨?_, ?_, fun _ _ hp => absurd hp (by simp [Task.frame]), h.killed⟩
  · intro k hk
    dsimp only [Task.frame]
    split_ifs
    · exact hmask k hk
    · rw [Finset.mem_insert, not_or]
      exact ⟨fun hks => hs (hks ▸ hk), hmask k hk⟩
  · dsimp only [Task.frame]
    split_ifs
    · exact update_dfl h.handler
    · exact h.handler

lemma Safe.sigaction {hd : SigHandler} {a : SigRest} (h : t.Safe) (hs : sig ∉ unblockable) :
    (t.sigaction sig hd a).Safe := by
  refine ⟨h.blocked, fun k hk => ?_, h.framing, h.killed⟩
  have hne : k ≠ sig := by
    rintro rfl
    exact hs hk
  change Function.update t.handler sig hd k = .dfl
  rw [Function.update_of_ne hne]
  exact h.handler k hk

lemma Safe.sigprocmask {how set : BitVec 64} (h : t.Safe) : (t.sigprocmask how set).Safe := by
  refine ⟨fun k hk => ?_, ?_, ?_, ?_⟩
  · have hb := h.blocked k hk
    have hm : k ∉ maskSet set \ unblockable := not_mem_sdiff hk
    unfold Task.sigprocmask
    grind
  · unfold Task.sigprocmask
    have hh := h.handler
    grind
  · unfold Task.sigprocmask
    have hh := h.framing
    grind
  · unfold Task.sigprocmask
    have hh := h.killed
    grind

lemma Safe.force (h : t.Safe) : (t.force sig).Safe := by
  unfold Task.force
  have hforced : Safe (if t.handler sig = .ign ∨ sig ∈ t.blocked then
      { t with handler := Function.update t.handler sig .dfl, blocked := t.blocked.erase sig }
    else t) := by
    split_ifs
    · exact ⟨fun k hk hm => h.blocked k hk (Finset.mem_of_mem_erase hm), update_dfl h.handler,
        h.framing, h.killed⟩
    · exact h
  generalize (if t.handler sig = .ign ∨ sig ∈ t.blocked then _ else t) = u at hforced
  refine ⟨hforced.blocked, hforced.handler, fun k a hp => ?_, hforced.killed⟩
  dsimp only at hp
  split_ifs at hp

lemma Safe.execReset (h : t.Safe) : (t.execReset sig).Safe := by
  unfold Task.execReset
  split_ifs
  · exact h
  · exact ⟨h.blocked, update_dfl h.handler, h.framing, h.killed⟩

lemma Safe.child (h : t.Safe) : t.child.Safe := by
  unfold Task.child
  split_ifs
  · exact ⟨by simp, fun _ _ => rfl, fun _ _ hp => absurd hp (by simp), fun hk => absurd hk (by simp)⟩
  · exact ⟨h.blocked, h.handler, fun _ _ hp => absurd hp (by simp), fun hk => absurd hk (by simp)⟩

end Task

section Runs

variable {s s' : DeliveryState} {p : ℕ} {a : DeliveryAction} {t : Task}

lemma Move.safe (h : Move s p a t) (hs : ∀ q, (s q).Safe) : t.Safe := by
  have hp := hs p
  cases h with
  | send => exact hp.send
  | take => exact hp.take
  | stop => exact hp.stopSelf
  | frame h => exact hp.frame (hp.framing _ _ h.2)
  | sigaction _ _ _ hu => exact hp.sigaction hu
  | sigprocmask => exact hp.sigprocmask
  | sigreturn => exact ⟨fun k hk => Task.not_mem_sdiff hk, hp.handler, hp.framing, hp.killed⟩
  | force => exact hp.force
  | execReset => exact hp.execReset
  | alloc h hq => exact (hs _).child
  | becomeUser => exact ⟨hp.blocked, hp.handler, hp.framing, hp.killed⟩
  | check =>
    refine hp.of_place fun k a hl => ?_
    split_ifs at hl
  | enter | resume | frameFails | sysExit | sigreturnFails => exact hp.of_place (by simp)
  | exit | makeReady | free | reap | schedule | preempt | block | wake =>
    exact hp.of_state (by simp)

lemma Safe.reachable (h : delivery.Reachable s) : ∀ p, (s p).Safe := by
  refine h.invariant (I := fun s => ∀ p, (s p).Safe) (fun s hi p => ?_) fun s a s' hs hst p => ?_
  · obtain hp | hp := hi p
    all_goals
      rw [hp]
      exact ⟨by simp, fun _ _ => rfl, fun _ _ hl => absurd hl (by simp), fun hk => absurd hk (by simp)⟩
  · obtain ⟨t, hm, rfl⟩ := hst
    by_cases hp : p = a.1
    · subst hp
      rw [Function.update_self]
      exact hm.safe hs
    · rw [Function.update_of_ne hp]
      exact hs p

/-- It is to be killed, and has not gone past the head of the loop of `signal_deliver`. -/
def Task.Doomed (t : Task) : Prop :=
  t.killed = true ∧ (t.place = .start ∨ t.place = .exiting (some sigkill))

lemma signalSend_killed_of_killed {sig : ℕ} (q : Process) (h : q.killed = true) :
    (q.signalSend sig).killed = true := by
  simp only [Process.signalSend, Process.wake]
  grind

lemma signalSend_sigkill {q : Process} (h : q.Receives sigkill) :
    (q.signalSend sigkill).killed = true := by
  have hu : sigkill ∈ unblockable := by decide
  have hc : sigkill ≠ sigcont := by decide
  have hd : defaultStop sigkill = false := by decide
  simp only [Process.signalSend, Process.wake, h, hu, hc, hd]
  grind

lemma signalSend_unused {sig : ℕ} (q : Process) (h : q.state ≠ .unused) :
    (q.signalSend sig).state ≠ .unused := by
  simp only [Process.signalSend, Process.wake]
  grind

lemma Move.used (h : Move s p a t) (hp : (s p).place ≠ .outside → (s p).state ≠ .unused)
    (ht : t.place ≠ .outside) : t.state ≠ .unused := by
  cases h with
  | send => exact signalSend_unused _ (hp ht)
  | enter h | check h | resume h | frameFails h | sysExit h | sigaction h | sigreturn h
  | sigreturnFails h =>
    intro hu
    exact absurd (h.1.symm.trans hu) (by simp)
  | take h | sigprocmask h | force h => simp [h.1]
  | stop h =>
    unfold Task.stopSelf
    split_ifs
    · simp [h.1]
    · simp
  | frame h hr =>
    intro hu
    exact absurd (h.1.symm.trans hu) (by simp)
  | execReset h => 
    rw [Task.execReset_state]
    obtain h | h := h
    · simp [h.1]
    · simp [h]
  | alloc h hq =>
    unfold Task.child
    split_ifs <;> simp
  | becomeUser h => simp [h]
  | exit | makeReady | free | reap | schedule | preempt | block | wake => simp

lemma Move.doomed (h : Move s p a t) (hp : (s p).Doomed) (hu : (s p).state ≠ .unused) :
    t.Doomed := by
  obtain ⟨hk, hl⟩ := hp
  cases h with
  | send => exact ⟨signalSend_killed_of_killed _ hk, hl⟩
  | check h => exact ⟨hk, .inr (if_pos hk)⟩
  | exit | makeReady | free | reap | schedule | preempt | block | wake | becomeUser => exact ⟨hk, hl⟩
  | alloc h => exact absurd h hu
  | execReset h =>
    unfold Task.execReset
    split_ifs
    · exact ⟨hk, hl⟩
    · exact ⟨hk, hl⟩
  | enter h | take h | stop h | resume h | frame h | frameFails h | sysExit h | sigaction h
  | sigprocmask h | sigreturn h | sigreturnFails h | force h =>
    rw [h.2] at hl
    exact absurd hl (by simp)

lemma used_reachable (h : delivery.Reachable s) :
    ∀ p, (s p).place ≠ .outside → (s p).state ≠ .unused := by
  refine h.invariant (I := fun s => ∀ p, (s p).place ≠ .outside → (s p).state ≠ .unused)
    (fun s hi p hl => ?_) fun s a s' hs hst p => ?_
  · obtain hp | hp := hi p
    all_goals
      rw [hp] at hl
      exact absurd rfl hl
  · obtain ⟨t, hm, rfl⟩ := hst
    by_cases hp : p = a.1
    · subst hp
      rw [Function.update_self]
      exact hm.used (hs _)
    · rw [Function.update_of_ne hp]
      exact hs p

lemma doomed_run (hs : delivery.Reachable s) (hp : (s p).Doomed)
    (h : Relation.ReflTransGen (fun u v => ∃ l, delivery.step u l v) s s') :
    delivery.Reachable s' ∧ (s' p).Doomed := by
  induction h with
  | refl => exact ⟨hs, hp⟩
  | tail _ hst ih =>
    obtain ⟨hr, hd⟩ := ih
    obtain ⟨l, hl⟩ := hst
    refine ⟨.step l hr hl, ?_⟩
    obtain ⟨t, hm, rfl⟩ := hl
    by_cases hpl : p = l.1
    · subst hpl
      rw [Function.update_self]
      refine hm.doomed hd (used_reachable hr _ ?_)
      obtain hpl | hpl := hd.2
      all_goals simp [hpl]
    · rw [Function.update_of_ne hpl]
      exact hd

lemma Move.still_killed (h : Move s p a t) (hk : (s p).killed = true) (hu : (s p).state ≠ .unused) :
    t.killed = true ∧ t.state ≠ .unused := by
  cases h with
  | send => exact ⟨signalSend_killed_of_killed _ hk, signalSend_unused _ hu⟩
  | take =>
    unfold Task.take
    split_ifs <;> exact ⟨hk, hu⟩
  | stop =>
    rw [Task.stopSelf, if_pos hk]
    exact ⟨hk, hu⟩
  | sigprocmask =>
    refine ⟨?_, ?_⟩
    · unfold Task.sigprocmask
      grind
    · rwa [Task.sigprocmask_state]
  | force =>
    refine ⟨?_, ?_⟩
    · unfold Task.force
      grind
    · rwa [Task.force_state]
  | execReset =>
    refine ⟨?_, ?_⟩
    · unfold Task.execReset
      grind
    · rwa [Task.execReset_state]
  | alloc h => exact absurd h hu
  | enter | check | resume | frame | frameFails | sysExit | sigaction | sigreturn | sigreturnFails | becomeUser =>
    exact ⟨hk, hu⟩
  | exit | makeReady | free | reap | schedule | preempt | block | wake => exact ⟨hk, nofun⟩

abbrev Later : DeliveryState → DeliveryState → Prop := Relation.ReflTransGen fun u v => ∃ l, delivery.step u l v

lemma killed_run (hk : (s p).killed = true) (hu : (s p).state ≠ .unused) (h : Later s s') :
    (s' p).killed = true ∧ (s' p).state ≠ .unused := by
  induction h with
  | refl => exact ⟨hk, hu⟩
  | tail _ hst ih =>
    obtain ⟨l, t, hm, rfl⟩ := hst
    by_cases hpl : p = l.1
    · subst hpl
      rw [Function.update_self]
      exact hm.still_killed ih.1 ih.2
    · rwa [Function.update_of_ne hpl]

theorem kill_not_evaded (s : DeliveryState) (hs : delivery.Reachable s) (p : ℕ) :
    (∀ sig ∈ unblockable, sig ∉ (s p).blocked ∧ (s p).handler sig = .dfl) ∧
      ((s p).killed = true → (s p).state ≠ .stopped) ∧
      ((s p).Receives sigkill → ∀ s', Later (Function.update s p ((s p).send sigkill)) s' → (s' p).killed = true) ∧
      ((s p).killed = true → (s p).place = .start →
        (∀ s', Later s s' → (s' p).place = .start ∨ (s' p).place = .exiting (some sigkill)) ∧
        ∀ t, Move s p .check t → t.place = .exiting (some sigkill)) := by
  have hsafe := Safe.reachable hs p
  refine ⟨fun sig h => ⟨hsafe.blocked sig h, hsafe.handler sig h⟩, hsafe.killed, fun hr s' hlater => ?_,
    fun hk hl => ⟨fun s' h => (doomed_run hs ⟨hk, .inl hl⟩ h).2.2, fun t hm => ?_⟩⟩
  · refine (killed_run ?_ ?_ hlater).1
    · rw [Function.update_self]
      exact signalSend_sigkill hr
    · obtain ⟨-, -, -, -, hused, -⟩ := hr
      rw [Function.update_self]
      exact signalSend_unused _ hused
  · cases hm with
    | check => exact if_pos hk

end Runs

section Example

def idleFirst : DeliveryState := fun p => if p = 0 then { state := .running, isIdle := true } else {}

lemma Move.reach {t u : Task} {a : DeliveryAction}
    (h : delivery.Reachable (Function.update idleFirst 1 t))
    (hm : Move (Function.update idleFirst 1 t) 1 a u) :
    delivery.Reachable (Function.update idleFirst 1 u) := by
  refine .step (1, a) h ⟨u, hm, ?_⟩
  rw [Function.update_idem]

lemma idleFirst_reachable : delivery.Reachable idleFirst := by
  refine .init fun p => ?_
  by_cases hp : p = 0
  · exact .inr (if_pos hp)
  · exact .inl (if_neg hp)

lemma running_reachable : delivery.Reachable (Function.update idleFirst 1
    { state := .running, isUser := true }) := by
  have h1 : delivery.Reachable (Function.update idleFirst 1 { state := .embryo }) :=
    .step (1, .alloc 0) idleFirst_reachable ⟨_, .alloc rfl ⟨rfl, rfl⟩, rfl⟩
  have h2 := Move.reach h1 (.becomeUser rfl)
  have h3 := Move.reach h2 (.makeReady rfl)
  exact Move.reach h3 (.schedule rfl)

lemma Move.later {v : DeliveryState} {t u : Task} {a : DeliveryAction} (h : Later v (Function.update idleFirst 1 t))
    (hm : Move (Function.update idleFirst 1 t) 1 a u) : Later v (Function.update idleFirst 1 u) :=
  h.tail ⟨(1, a), u, hm, by rw [Function.update_idem]⟩

theorem kill_not_evaded_first : ∃ s, delivery.Reachable s ∧ 9 ∉ (s 1).blocked ∧ 15 ∈ (s 1).blocked ∧ (s 1).killed = true ∧
    (s 1).place = .start ∧ ∀ t, Move s 1 .check t → t.place = .exiting (some sigkill) := by
  have hsend := Move.reach running_reachable (.send sigkill)
  have hmask := Move.reach hsend (@Move.sigprocmask _ _ 2 (-1) ⟨by decide, rfl⟩)
  have henter := Move.reach hmask (.enter ⟨by decide, rfl⟩ (by decide))
  have hlater := Move.later (Move.later (t := Task.send { state := .running, isUser := true } sigkill) .refl
    (@Move.sigprocmask _ _ 2 (-1) ⟨by decide, rfl⟩)) (.enter ⟨by decide, rfl⟩ (by decide))
  obtain ⟨-, -, hkilled, -⟩ := kill_not_evaded _ running_reachable 1
  obtain ⟨hsafe, -, -, hdoom⟩ := kill_not_evaded _ henter 1
  rw [Function.update_idem] at hkilled
  have hk := hkilled (by decide) _ hlater
  exact ⟨_, henter, (hsafe 9 (by decide)).1, by decide, hk, rfl, (hdoom hk rfl).2⟩

end Example

end MyOS.Proc
