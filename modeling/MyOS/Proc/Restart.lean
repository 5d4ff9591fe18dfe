import MyOS.Proc.JobControl

/-! Whether an interrupted system call is restarted, and what `signal_deliver` does at that return. -/

namespace MyOS.Proc

open Library Function

def sysWrite : BitVec 64 := 1
def sysRead : BitVec 64 := 2
def sysWait : BitVec 64 := 6
def sysSleep : BitVec 64 := 9
def sysIoctl : BitVec 64 := 42

def restartCalls : List (BitVec 64) := [sysRead, sysWrite, sysWait, sysIoctl, sysSleep]

def SigRest.Restart (a : SigRest) : Prop := a.flags &&& 0x10000000 ≠ 0

instance (a : SigRest) : Decidable a.Restart := by
  unfold SigRest.Restart
  infer_instance

namespace Task

def shouldRestart (t : Task) (nr : BitVec 64) : Bool :=
  if nr ∉ restartCalls then false
  else if t.nextSignal ≠ 0 ∧ t.nextSignal ≠ sigkill then
    match t.handler t.nextSignal with
    | .dfl => defaultStop t.nextSignal
    | .ign => false
    | .user _ => decide (nr ≠ sysSleep) && decide (t.rest t.nextSignal).Restart
  else false

/-- The end of `syscall_dispatch` with the result `ret`: the registers `rax` and `rip`. -/
def syscallReturn (t : Task) (nr rip ret : BitVec 64) : BitVec 64 × BitVec 64 :=
  if ret = -4 ∧ t.shouldRestart nr then (nr, rip - 2) else (ret, rip)

/-- The loop of `signal_deliver` up to the first signal that is not ignored, with the signals that arrive
before the check and before the critical section of each turn. -/
def deliver : List (List ℕ × List ℕ) → Task → Option DeliverPc
  | [], _ => none
  | (a, b) :: as, t =>
    let t := a.foldl send t
    if t.killed then some (.exiting (some sigkill))
    else
      let t := (b.foldl send t).take
      match t.place with
      | .start => deliver as t
      | l => some l

def signalDeliver (t : Task) (as : List (List ℕ × List ℕ)) : Option DeliverPc :=
  if t.isUser then t.deliver as else some .outside

end Task

/-- A signal that is acted on so asks for a restart: it stops the process, or has a handler for that. -/
def DeliverPc.Asks (nr : BitVec 64) : DeliverPc → Prop
  | .stopping _ => True
  | .framing _ a => a.Restart ∧ nr ≠ sysSleep
  | _ => False

def Task.Asks (t : Task) (nr : BitVec 64) : Prop :=
  t.nextSignal ≠ 0 ∧ t.nextSignal ≠ sigkill ∧ (t.act t.nextSignal).Asks nr

/-- What a restart and what `-EINTR` promise about the first signal that is acted on. A process that exits
returns neither. -/
def Agrees (restarted : Prop) (nr : BitVec 64) : DeliverPc → Prop
  | .stopping _ => restarted
  | .framing _ a => a.Restorer → (restarted ↔ a.Restart ∧ nr ≠ sysSleep)
  | .exiting _ => True
  | _ => False

def RestartAgrees (t : Task) (nr rip : BitVec 64) (as : List (List ℕ × List ℕ)) : Prop :=
  ∀ l ∈ t.signalDeliver as, Agrees (t.syscallReturn nr rip (-4) = (nr, rip - 2)) nr l

namespace Task

variable (t : Task) (as : List (List ℕ × List ℕ))

def sent (j : ℕ) : Task := ((as.take (j + 1)).flatMap fun ab => ab.1 ++ ab.2).foldl send t

/-- It is pending, not blocked, and ignored all the same: it was sent while it was blocked. -/
def Waits (sig : ℕ) : Prop := sig ∈ t.pending ∧ sig ∉ t.blocked ∧ t.Ignores sig

def heeded : Task := { t with pending := t.pending.filter fun sig => ¬ t.Ignores sig }

def first (j : ℕ) : ℕ := (t.sent as j).heeded.nextSignal

/-- For every turn up to turn `j` there is an ignored signal that still waits then, one below the next, and the last one
comes before all that are not ignored. -/
def GoesOn (j : ℕ) : Prop :=
  t.first as j ≠ sigkill ∧ ∃ c : ℕ → ℕ, (∀ i ≤ j, (t.sent as i).Waits (c i)) ∧ (∀ i < j, c i < c (i + 1)) ∧
    (t.first as j = 0 ∨ c j < t.first as j)

def EndsAt (k : ℕ) : Prop := k < as.length ∧ (∀ j < k, t.GoesOn as j) ∧ ¬ t.GoesOn as k

end Task

def DeliverPc.Returns : DeliverPc → Prop
  | .stopping _ => True
  | .framing _ a => a.Restorer
  | _ => False

/-- In the turn in which no ignored signal comes first any more, there is a signal. If it stops the process or has a
handler, one that asks for a restart finds one of the five calls, and if it is not the one that the decision was about then
that one asks for the same. -/
structure Foreseen (t : Task) (nr : BitVec 64) (as : List (List ℕ × List ℕ)) : Prop where
  some : ∀ k, t.EndsAt as k → t.first as k ≠ 0
  call : ∀ k, t.EndsAt as k → (t.act (t.first as k)).Returns → (t.act (t.first as k)).Asks nr → nr ∈ restartCalls
  same : ∀ k, t.EndsAt as k → (t.act (t.first as k)).Returns → nr ∈ restartCalls → t.first as k ≠ t.nextSignal →
    ((t.act (t.first as k)).Asks nr ↔ t.Asks nr)

variable {t u : Task} {nr rip : BitVec 64} {as : List (List ℕ × List ℕ)} {l : DeliverPc} {sig : ℕ}

lemma defaultIgnore_of_stop (h : defaultStop sig = true) : defaultIgnore sig = false := by
  have hmem : sig ∈ stopSignals := of_decide_eq_true h
  fin_cases hmem <;> rfl

lemma shouldRestart_iff : t.shouldRestart nr = true ↔ nr ∈ restartCalls ∧ t.Asks nr := by
  unfold Task.shouldRestart Task.Asks Task.act
  by_cases hnr : nr ∈ restartCalls
  · simp only [hnr, not_true_eq_false, if_false, true_and]
    by_cases hs : t.nextSignal ≠ 0 ∧ t.nextSignal ≠ sigkill
    · rw [if_pos hs]
      cases t.handler t.nextSignal with
      | ign => simp [DeliverPc.Asks]
      | user addr => simp [DeliverPc.Asks, hs.1, hs.2, and_comm]
      | dfl =>
        cases hstop : defaultStop t.nextSignal with
        | true => simp [DeliverPc.Asks, hs.1, hs.2, defaultIgnore_of_stop hstop]
        | false => cases defaultIgnore t.nextSignal <;> simp [DeliverPc.Asks]
    · rw [if_neg hs]
      simp only [Bool.false_eq_true, false_iff]
      exact fun h => hs ⟨h.1, h.2.1⟩
  · simp [hnr]

lemma restarted_iff : t.syscallReturn nr rip (-4) = (nr, rip - 2) ↔ t.shouldRestart nr = true := by
  have hrip : rip ≠ rip - 2 := by
    intro h
    have := congrArg BitVec.toNat h
    rw [BitVec.toNat_sub] at this
    have := rip.isLt
    simp at *
    omega
  unfold Task.syscallReturn
  split_ifs with h
  · simp [h.2]
  · simp only [true_and] at h
    exact ⟨fun he => absurd (Prod.mk.inj he).2 hrip, fun hs => absurd hs h⟩

lemma take_place_zero (h : u.nextSignal = 0) : u.take.place = .outside := by rw [Task.take, if_pos h]

lemma act_cases (u : Task) (sig : ℕ) : u.act sig = .start ∨ u.act sig = .stopping sig ∨
    u.act sig = .exiting (some sig) ∨ u.act sig = .framing sig (u.rest sig) := by
  unfold Task.act
  cases u.handler sig with
  | ign => exact .inl rfl
  | user addr => exact .inr (.inr (.inr rfl))
  | dfl =>
    cases defaultIgnore sig with
    | true => exact .inl rfl
    | false =>
      cases defaultStop sig with
      | true => exact .inr (.inl rfl)
      | false => exact .inr (.inr (.inl rfl))

lemma ignores_of_start (h : t.act sig = .start) : t.Ignores sig := by
  unfold Task.act at h
  unfold Process.Ignores
  grind

lemma act_of_ignores (h : t.Ignores sig) : t.act sig = .start := by
  unfold Process.Ignores at h
  unfold Task.act
  grind

namespace Task

variable {v : Task} {lo x : ℕ}

def dropped (v : Task) (lo : ℕ) : Task :=
  { v with pending := v.pending.filter fun d => ¬ (d ∉ v.blocked ∧ v.Ignores d ∧ d < lo) }

structure Proper (t : Task) : Prop where
  handler : ∀ sig ∈ unblockable, t.handler sig = .dfl
  zero : 0 ∉ t.pending

lemma Proper.not_ignores (h : t.Proper) (hs : sig ∈ unblockable) : ¬ t.Ignores sig := by
  have hd := h.handler sig hs
  unfold Process.Ignores
  rw [hd]
  fin_cases hs <;> decide

lemma send_ignores : (v.send sig).Ignores x ↔ v.Ignores x := by
  unfold Process.Ignores
  have hh : (v.send sig).handler = v.handler := signalSend_handler v.toProcess
  rw [hh]

lemma send_blocked : (v.send sig).blocked = v.blocked := signalSend_blocked v.toProcess

lemma signalSend_zero {q : Process} (hz : 0 ∉ q.pending) : 0 ∉ (q.signalSend sig).pending := by
  rw [signalSend_pending]
  by_cases hr : q.Receives sig
  · have hpos := hr.1
    grind
  · rwa [if_pos hr]

lemma Proper.send (h : v.Proper) : (v.send sig).Proper := by
  refine ⟨fun k hk => ?_, signalSend_zero h.zero⟩
  have hh : (v.send sig).handler = v.handler := signalSend_handler v.toProcess
  rw [hh]
  exact h.handler k hk

lemma signalSend_pendingOnly (p : Process) (A : Finset ℕ) : Process.signalSend { p with pending := A } sig =
    { p.signalSend sig with pending := (Process.signalSend { p with pending := A } sig).pending } := by
  have hc : defaultStop sigcont = false := by decide
  have hck : sigcont ≠ sigkill := by decide
  by_cases hr : p.Receives sig
  · have hr' : Process.Receives { p with pending := A } sig := hr
    unfold Process.signalSend Process.wake
    rw [if_neg (not_not.2 hr), if_neg (not_not.2 hr')]
    dsimp only
    by_cases h1 : sig = sigkill
    · subst h1
      simp only [hck.symm, if_true, if_false, Process.Ignores]
      split_ifs <;> rfl
    · simp only [h1, if_false]
      by_cases h2 : sig = sigcont
      · subst h2
        simp only [hc, if_true, if_false, Bool.false_eq_true, Process.Ignores]
        split_ifs <;> rfl
      · simp only [h2, if_false]
        by_cases h3 : defaultStop sig = true
        · simp only [h3, if_true, Process.Ignores]
          split_ifs <;> rfl
        · simp only [h3, Bool.false_eq_true, if_false, Process.Ignores]
          split_ifs <;> rfl
  · have hr' : ¬ Process.Receives { p with pending := A } sig := hr
    unfold Process.signalSend
    rw [if_pos hr, if_pos hr']

lemma signalSend_dropped (h : v.Proper) (d : ℕ) :
    d ∈ (Process.signalSend { v.toProcess with pending := (v.dropped lo).pending } sig).pending ↔
      d ∈ (v.signalSend sig).pending ∧ ¬ (d ∉ v.blocked ∧ v.Ignores d ∧ d < lo) := by
  have hsig : sig ∈ unblockable → ¬ v.Ignores sig := h.not_ignores
  rw [signalSend_pending, signalSend_pending]
  by_cases hr : v.Receives sig
  · have hr' : Process.Receives { v.toProcess with pending := (v.dropped lo).pending } sig := hr
    rw [if_neg (not_not.2 hr), if_neg (not_not.2 hr')]
    have hi : Process.Ignores { v.toProcess with pending := (v.dropped lo).pending } sig ↔ v.Ignores sig := Iff.rfl
    have hmem : d ∈ (v.dropped lo).pending ↔ d ∈ v.pending ∧ ¬ (d ∉ v.blocked ∧ v.Ignores d ∧ d < lo) :=
      Finset.mem_filter
    dsimp only
    split_ifs <;> grind
  · have hr' : ¬ Process.Receives { v.toProcess with pending := (v.dropped lo).pending } sig := hr
    rw [if_pos hr, if_pos hr']
    exact Finset.mem_filter

lemma dropped_send (h : v.Proper) : (v.dropped lo).send sig = (v.send sig).dropped lo := by
  have hpending : (Process.signalSend { v.toProcess with pending := (v.dropped lo).pending } sig).pending =
      ((v.send sig).dropped lo).pending := by
    ext d
    refine (signalSend_dropped h d).trans (Iff.trans ?_ Finset.mem_filter.symm)
    rw [send_blocked, send_ignores]
    rfl
  have hprocess : (v.dropped lo).signalSend sig = ((v.send sig).dropped lo).toProcess :=
    (signalSend_pendingOnly v.toProcess (v.dropped lo).pending).trans
      (congrArg (fun A => { v.signalSend sig with pending := A }) hpending)
  unfold Task.send
  rw [hprocess]
  rfl

lemma sends_dropped (l : List ℕ) (h : v.Proper) : l.foldl Task.send (v.dropped lo) = (l.foldl Task.send v).dropped lo := by
  induction l generalizing v with
  | nil => rfl
  | cons sig l ih => rw [List.foldl_cons, dropped_send h, ih h.send, List.foldl_cons]

lemma sends_place (l : List ℕ) (place : DeliverPc) :
    l.foldl Task.send { v with place := place } = { l.foldl Task.send v with place := place } := by
  induction l generalizing v with
  | nil => rfl
  | cons sig l ih => exact ih (v := v.send sig)

lemma sends_proper (l : List ℕ) (h : v.Proper) : (l.foldl Task.send v).Proper := by
  induction l generalizing v with
  | nil => exact h
  | cons sig l ih => exact ih h.send

lemma sends_killed (l : List ℕ) (h : v.killed = true) : (l.foldl Task.send v).killed = true := by
  induction l generalizing v with
  | nil => exact h
  | cons sig l ih => exact ih (signalSend_killed_of_killed _ h)

lemma sends_act (l : List ℕ) : (l.foldl Task.send v).act = v.act := by
  induction l generalizing v with
  | nil => rfl
  | cons sig l ih =>
    rw [List.foldl_cons, ih]
    funext x
    have hh : (v.send sig).handler = v.handler := signalSend_handler v.toProcess
    rw [act, act, hh]
    rfl

def ready (v : Task) : Finset ℕ := v.pending \ v.blocked

lemma nextSignal_killed (hk : v.killed = true) : v.nextSignal = sigkill := by rw [nextSignal, if_pos hk]

lemma nextSignal_kill (hs : sigkill ∈ v.ready) : v.nextSignal = sigkill := by
  unfold nextSignal
  split_ifs
  · rfl
  · rfl
  · contradiction

lemma nextSignal_least (hk : v.killed = false) (hs : sigkill ∉ v.ready) :
    v.nextSignal = 0 ∧ v.ready = ∅ ∨ v.nextSignal ∈ v.ready ∧ ∀ r ∈ v.ready, v.nextSignal ≤ r := by
  have hnext : v.nextSignal = v.ready.min.untopD 0 := by
    rw [nextSignal, hk, if_neg Bool.false_ne_true]
    exact if_neg hs
  rw [hnext]
  cases hm : v.ready.min with
  | top => exact .inl ⟨rfl, Finset.min_eq_top.1 hm⟩
  | coe m => exact .inr ⟨Finset.mem_of_min hm, fun r hr => Finset.min_le_of_eq hr hm⟩

lemma mem_ready_heeded : x ∈ v.heeded.ready ↔ x ∈ v.ready ∧ ¬ v.Ignores x := by
  simp only [ready, heeded, Finset.mem_sdiff, Finset.mem_filter]
  tauto

lemma mem_ready_dropped : x ∈ (v.dropped lo).ready ↔ x ∈ v.ready ∧ (v.Ignores x → lo ≤ x) := by
  simp only [ready, dropped, Finset.mem_sdiff, Finset.mem_filter]
  rw [← not_lt]
  tauto

lemma waits_iff : v.Waits x ↔ x ∈ v.ready ∧ v.Ignores x := by
  rw [Waits, ready, Finset.mem_sdiff, and_assoc]

lemma nextSignal_dropped (lo : ℕ) (h : v.Proper) :
    (v.heeded.nextSignal ≠ sigkill ∧ v.Waits (v.dropped lo).nextSignal ∧ lo ≤ (v.dropped lo).nextSignal ∧
      (v.heeded.nextSignal = 0 ∨ (v.dropped lo).nextSignal < v.heeded.nextSignal) ∧
      ∀ d, v.Waits d → lo ≤ d → (v.dropped lo).nextSignal ≤ d) ∨
    ((v.dropped lo).nextSignal = v.heeded.nextSignal ∧ (v.heeded.nextSignal = sigkill ∨
      ∀ d, v.Waits d → lo ≤ d → v.heeded.nextSignal ≠ 0 ∧ v.heeded.nextSignal ≤ d)) := by
  by_cases hk : v.killed = true
  · have hkill : v.heeded.nextSignal = sigkill := nextSignal_killed hk
    exact .inr ⟨(nextSignal_killed (v := v.dropped lo) hk).trans hkill.symm, .inl hkill⟩
  have hk : v.killed = false := by simpa using hk
  have hheed : ¬ v.Ignores sigkill := h.not_ignores (by decide)
  by_cases h9 : sigkill ∈ v.ready
  · have hkill : v.heeded.nextSignal = sigkill := nextSignal_kill (mem_ready_heeded.2 ⟨h9, hheed⟩)
    have hkill' : (v.dropped lo).nextSignal = sigkill :=
      nextSignal_kill (mem_ready_dropped.2 ⟨h9, fun hi => absurd hi hheed⟩)
    exact .inr ⟨hkill'.trans hkill.symm, .inl hkill⟩
  have hnext := nextSignal_least (v := v.dropped lo) hk (fun hs => h9 (mem_ready_dropped.1 hs).1)
  have hheeded := nextSignal_least (v := v.heeded) hk (fun hs => h9 (mem_ready_heeded.1 hs).1)
  have hsub : v.heeded.ready ⊆ (v.dropped lo).ready := by
    intro r hr
    obtain ⟨hr, hi⟩ := mem_ready_heeded.1 hr
    exact mem_ready_dropped.2 ⟨hr, fun hi' => absurd hi' hi⟩
  generalize (v.dropped lo).nextSignal = n at hnext ⊢
  generalize v.heeded.nextSignal = e at hheeded ⊢
  have hwait {d : ℕ} (hd : v.Waits d) (hlo : lo ≤ d) : d ∈ (v.dropped lo).ready :=
    mem_ready_dropped.2 ⟨(waits_iff.1 hd).1, fun _ => hlo⟩
  rcases hnext with ⟨rfl, hempty⟩ | ⟨hmem, hleast⟩
  · rw [hempty] at hsub hwait
    rcases hheeded with ⟨rfl, -⟩ | ⟨hin, -⟩
    · exact .inr ⟨rfl, .inr fun d hd hlo => absurd (hwait hd hlo) (Finset.notMem_empty d)⟩
    · exact absurd (hsub hin) (Finset.notMem_empty e)
  obtain ⟨hready, hlo⟩ := mem_ready_dropped.1 hmem
  by_cases hi : v.Ignores n
  · refine .inl ⟨?_, waits_iff.2 ⟨hready, hi⟩, hlo hi, ?_, fun d hd hd' => hleast d (hwait hd hd')⟩
    · rintro rfl
      rcases hheeded with ⟨h0, -⟩ | ⟨hin, -⟩
      · cases h0
      · exact h9 (mem_ready_heeded.1 hin).1
    · rcases hheeded with ⟨rfl, -⟩ | ⟨hin, -⟩
      · exact .inl rfl
      · refine .inr (lt_of_le_of_ne (hleast e (hsub hin)) ?_)
        rintro rfl
        exact (mem_ready_heeded.1 hin).2 hi
  · have hmem' : n ∈ v.heeded.ready := mem_ready_heeded.2 ⟨hready, hi⟩
    rcases hheeded with ⟨-, hempty⟩ | ⟨hin, hleast'⟩
    · rw [hempty] at hmem'
      exact absurd hmem' (Finset.notMem_empty n)
    · have heq : n = e := le_antisymm (hleast e (hsub hin)) (hleast' n hmem')
      subst heq
      refine .inr ⟨rfl, .inr fun d hd hd' => ⟨?_, hleast d (hwait hd hd')⟩⟩
      rintro rfl
      exact h.zero (Finset.mem_sdiff.1 hready).1

lemma heeded_not_ignored (h : v.Proper) (hne : v.heeded.nextSignal ≠ 0) : ¬ v.Ignores v.heeded.nextSignal := by
  have hkill : ¬ v.Ignores sigkill := h.not_ignores (by decide)
  by_cases hk : v.heeded.killed = true
  · rwa [nextSignal_killed hk]
  by_cases h9 : sigkill ∈ v.heeded.ready
  · rwa [nextSignal_kill h9]
  rcases nextSignal_least (by simpa using hk) h9 with ⟨hzero, -⟩ | ⟨hmem, -⟩
  · exact absurd hzero hne
  · exact (mem_ready_heeded.1 hmem).2

section Turns

variable {t : Task} {as rest pre : List (List ℕ × List ℕ)} {a b : List ℕ} {i d : ℕ} {l place : DeliverPc}

def ending (t : Task) (sig : ℕ) : DeliverPc := if sig = 0 then .outside else t.act sig

def before (t : Task) (pre : List (List ℕ × List ℕ)) : Task := (pre.flatMap fun ab => ab.1 ++ ab.2).foldl send t

lemma sent_length (has : as = pre ++ (a, b) :: rest) :
    t.sent as pre.length = b.foldl send (a.foldl send (t.before pre)) := by
  have htake : as.take (pre.length + 1) = pre ++ [(a, b)] := by
    rw [has, List.take_append]
    simp
  rw [sent, htake, List.flatMap_append, List.foldl_append, before]
  simp

lemma before_snoc : t.before (pre ++ [(a, b)]) = b.foldl send (a.foldl send (t.before pre)) := by
  rw [before, List.flatMap_append, List.foldl_append, before]
  simp

structure Turn (t : Task) (as : List (List ℕ × List ℕ)) (i lo : ℕ) : Prop where
  chain : ∃ c : ℕ → ℕ, (∀ j < i, (t.sent as j).Waits (c j)) ∧ (∀ j, j + 1 < i → c j < c (j + 1)) ∧ ∀ j < i, c j < lo
  zero : i = 0 → lo = 0
  least : ∀ c : ℕ → ℕ, (∀ j < i, (t.sent as j).Waits (c j)) → (∀ j, j + 1 < i → c j < c (j + 1)) →
    ∀ j, j + 1 = i → lo ≤ c j + 1

lemma Turn.le (h : t.Turn as i lo) {c : ℕ → ℕ} (hw : ∀ j ≤ i, (t.sent as j).Waits (c j))
    (hc : ∀ j < i, c j < c (j + 1)) : lo ≤ c i := by
  cases i with
  | zero =>
    rw [h.zero rfl]
    exact Nat.zero_le _
  | succ i =>
    have hle := h.least c (fun j hj => hw j hj.le) (fun j hj => hc j (by omega)) i rfl
    exact hle.trans (hc i (Nat.lt_succ_self i))

lemma Turn.extend (h : t.Turn as i lo) (hd : (t.sent as i).Waits d) (hlo : lo ≤ d) :
    ∃ c : ℕ → ℕ, (∀ j ≤ i, (t.sent as j).Waits (c j)) ∧ (∀ j < i, c j < c (j + 1)) ∧ c i = d := by
  obtain ⟨c, hw, hc, hlt⟩ := h.chain
  refine ⟨update c i d, fun j hj => ?_, fun j hj => ?_, update_self ..⟩
  · rcases hj.eq_or_lt with rfl | hj
    · rwa [update_self]
    · rw [update_of_ne hj.ne]
      exact hw j hj
  · rw [update_of_ne hj.ne]
    rcases (Nat.succ_le_of_lt hj).eq_or_lt with heq | hlt'
    · rw [← heq, update_self]
      exact (hlt j hj).trans_le hlo
    · rw [update_of_ne hlt'.ne]
      exact hc j hlt'

lemma Turn.goesOn_iff (h : t.Turn as i lo) : t.GoesOn as i ↔ t.first as i ≠ sigkill ∧
    ∃ d, (t.sent as i).Waits d ∧ lo ≤ d ∧ (t.first as i = 0 ∨ d < t.first as i) := by
  refine and_congr_right fun _ => ⟨?_, ?_⟩
  · rintro ⟨c, hw, hc, hlt⟩
    exact ⟨c i, hw i le_rfl, h.le hw hc, hlt⟩
  · rintro ⟨d, hd, hlo, hlt⟩
    obtain ⟨c, hw, hc, rfl⟩ := h.extend hd hlo
    exact ⟨c, hw, hc, hlt⟩

lemma Turn.next (h : t.Turn as i lo) (hd : (t.sent as i).Waits d) (hlo : lo ≤ d)
    (hleast : ∀ d', (t.sent as i).Waits d' → lo ≤ d' → d ≤ d') : t.Turn as (i + 1) (d + 1) where
  chain := by
    obtain ⟨c, hw, hc, rfl⟩ := h.extend hd hlo
    have hle : ∀ j ≤ i, c j ≤ c i := by
      intro j hj
      induction hj using Nat.decreasingInduction with
      | self => exact le_rfl
      | of_succ j hj ih => exact (hc j hj).le.trans ih
    exact ⟨c, fun j hj => hw j (Nat.le_of_lt_succ hj), fun j hj => hc j (Nat.lt_of_succ_lt_succ hj),
      fun j hj => Nat.lt_succ_of_le (hle j (Nat.le_of_lt_succ hj))⟩
  zero hi := absurd hi (Nat.succ_ne_zero i)
  least c hw hc j hj := by
    obtain rfl := Nat.succ_injective hj
    have hw' : ∀ k ≤ j, (t.sent as k).Waits (c k) := fun k hk => hw k (Nat.lt_succ_of_le hk)
    exact Nat.succ_le_succ (hleast _ (hw' j le_rfl) (h.le hw' fun k hk => hc k (Nat.succ_lt_succ hk)))

lemma take_dropped (h : v.Proper) (hw : v.Waits (v.dropped lo).nextSignal) (hlo : lo ≤ (v.dropped lo).nextSignal)
    (hleast : ∀ d, v.Waits d → lo ≤ d → (v.dropped lo).nextSignal ≤ d) (place : DeliverPc) :
    Task.take { v.dropped lo with place := place } =
      { v.dropped ((v.dropped lo).nextSignal + 1) with place := .start } := by
  have hne : (v.dropped lo).nextSignal ≠ 0 := fun h0 => h.zero (h0 ▸ hw.1)
  have hpending : (v.dropped lo).pending.erase (v.dropped lo).nextSignal =
      (v.dropped ((v.dropped lo).nextSignal + 1)).pending := by
    generalize (v.dropped lo).nextSignal = n at hw hlo hleast
    ext d
    simp only [dropped, Finset.mem_erase, Finset.mem_filter]
    constructor
    · rintro ⟨hdn, hd, hkeep⟩
      refine ⟨hd, fun ⟨hb, hi, hlt⟩ => hkeep ⟨hb, hi, ?_⟩⟩
      by_contra hge
      have := hleast d ⟨hd, hb, hi⟩ (not_lt.1 hge)
      omega
    · rintro ⟨hd, hkeep⟩
      refine ⟨?_, hd, fun ⟨hb, hi, hlt⟩ => hkeep ⟨hb, hi, by omega⟩⟩
      rintro rfl
      exact hkeep ⟨hw.2.1, hw.2.2, Nat.lt_succ_self _⟩
  have hact : (v.dropped lo).act (v.dropped lo).nextSignal = .start := act_of_ignores hw.2.2
  rw [take]
  exact (if_neg hne).trans (congrArg₂ (fun A l => ({ v with pending := A, place := l } : Task)) hpending hact)

lemma take_ending : v.ending v.nextSignal = v.take.place := by
  unfold ending take
  split_ifs <;> rfl

lemma deliver_killed (hk : (a.foldl send t).killed = true) :
    t.deliver ((a, b) :: rest) = some (.exiting (some sigkill)) := by
  rw [deliver]
  exact if_pos hk

lemma deliver_start (hk : ¬ (a.foldl send t).killed = true) (hp : (b.foldl send (a.foldl send t)).take.place = .start) :
    t.deliver ((a, b) :: rest) = (b.foldl send (a.foldl send t)).take.deliver rest := by
  rw [deliver]
  dsimp only
  rw [if_neg hk, hp]

lemma deliver_stops (hk : ¬ (a.foldl send t).killed = true) (hp : (b.foldl send (a.foldl send t)).take.place ≠ .start) :
    t.deliver ((a, b) :: rest) = some (b.foldl send (a.foldl send t)).take.place := by
  rw [deliver]
  dsimp only
  rw [if_neg hk]
  split
  · contradiction
  · rfl

lemma act_sigkill (h : t.Proper) : t.act sigkill = .exiting (some sigkill) := by
  rw [act, h.handler sigkill (by decide)]
  rfl

def EndsFrom (t : Task) (as : List (List ℕ × List ℕ)) (i k : ℕ) : Prop :=
  i ≤ k ∧ k < as.length ∧ (∀ j, i ≤ j → j < k → t.GoesOn as j) ∧ ¬ t.GoesOn as k

lemma endsFrom_stop (hi : i < as.length) (hno : ¬ t.GoesOn as i) {k : ℕ} : t.EndsFrom as i k ↔ k = i := by
  constructor
  · rintro ⟨hik, -, hall, -⟩
    by_contra hne
    exact hno (hall i le_rfl (lt_of_le_of_ne hik (Ne.symm hne)))
  · rintro rfl
    exact ⟨le_rfl, hi, fun j h₁ h₂ => absurd h₂ (not_lt.2 h₁), hno⟩

lemma endsFrom_go (hgo : t.GoesOn as i) {k : ℕ} : t.EndsFrom as i k ↔ t.EndsFrom as (i + 1) k := by
  constructor
  · rintro ⟨hik, hk, hall, hno⟩
    refine ⟨lt_of_le_of_ne hik fun heq => hno (heq ▸ hgo), hk, fun j h₁ h₂ => hall j (by omega) h₂, hno⟩
  · rintro ⟨hik, hk, hall, hno⟩
    refine ⟨by omega, hk, fun j h₁ h₂ => ?_, hno⟩
    rcases h₁.eq_or_lt with rfl | h₁
    · exact hgo
    · exact hall j h₁ h₂

lemma deliver_iff (pre : List (List ℕ × List ℕ)) (place : DeliverPc) (h : t.Proper) (has : as = pre ++ rest)
    (hturn : t.Turn as pre.length lo) :
    Task.deliver rest { (t.before pre).dropped lo with place := place } = some l ↔
      ∃ k, t.EndsFrom as pre.length k ∧ l = t.ending (t.first as k) := by
  induction rest generalizing pre lo place with
  | nil =>
    rw [List.append_nil] at has
    refine iff_of_false nofun ?_
    rintro ⟨k, ⟨h₁, h₂, -⟩, -⟩
    rw [has] at h₂
    exact absurd h₂ (not_lt.2 h₁)
  | cons ab rest ih =>
    obtain ⟨a, b⟩ := ab
    have hlen : pre.length < as.length := by
      rw [has, List.length_append, List.length_cons]
      omega
    have hpre : (t.before pre).Proper := sends_proper _ h
    have hproper : (a.foldl send (t.before pre)).Proper := sends_proper a hpre
    have hsent : t.sent as pre.length = b.foldl send (a.foldl send (t.before pre)) := sent_length has
    have hv : (t.sent as pre.length).Proper := hsent ▸ sends_proper b hproper
    have hact : (t.sent as pre.length).act = t.act := sends_act _
    have hstop (hno : ¬ t.GoesOn as pre.length) :
        (∃ k, t.EndsFrom as pre.length k ∧ l = t.ending (t.first as k)) ↔ l = t.ending (t.first as pre.length) := by
      simp only [endsFrom_stop hlen hno, exists_eq_left]
    have harrive : a.foldl send { (t.before pre).dropped lo with place := place } =
        { (a.foldl send (t.before pre)).dropped lo with place := place } := by
      rw [sends_place, sends_dropped a hpre]
    have harrive' : b.foldl send (a.foldl send { (t.before pre).dropped lo with place := place }) =
        { (t.sent as pre.length).dropped lo with place := place } := by
      rw [harrive, sends_place, sends_dropped b hproper, hsent]
    by_cases hk : (a.foldl send (t.before pre)).killed = true
    · -- the check at the head of the loop
      have hfirst : t.first as pre.length = sigkill := by
        refine nextSignal_killed ?_
        change (t.sent as pre.length).killed = true
        rw [hsent]
        exact sends_killed b hk
      rw [deliver_killed (by rw [harrive]; exact hk), hstop fun hgo => hgo.1 hfirst, hfirst, ending, if_neg (by decide),
        act_sigkill h]
      exact Option.some_inj.trans eq_comm
    have hk' : ¬ (a.foldl send { (t.before pre).dropped lo with place := place }).killed = true := by
      rw [harrive]
      exact hk
    rcases nextSignal_dropped lo hv with ⟨h9, hw, hlo, hlt, hleast⟩ | ⟨heq, hnone⟩
    · have htake := take_dropped hv hw hlo hleast place
      have hgo : t.GoesOn as pre.length := hturn.goesOn_iff.2 ⟨h9, _, hw, hlo, hlt⟩
      have hnext := ih (pre ++ [(a, b)]) .start (by rw [has]; simp) (by
        rw [List.length_append]
        exact hturn.next hw hlo hleast)
      rw [before_snoc.trans hsent.symm] at hnext
      rw [deliver_start hk' (by rw [harrive', htake]), harrive', htake, hnext, List.length_append]
      simp only [endsFrom_go hgo, List.length_singleton]
    · have hno : ¬ t.GoesOn as pre.length := by
        rw [hturn.goesOn_iff]
        rintro ⟨h9, d, hd, hlo, hlt⟩
        obtain ⟨hne, hle⟩ := hnone.resolve_left h9 d hd hlo
        exact absurd (hlt.resolve_left hne) (not_lt.2 hle)
      have hplace : (Task.take { (t.sent as pre.length).dropped lo with place := place }).place =
          t.ending (t.first as pre.length) := by
        have hending : (t.sent as pre.length).ending (t.first as pre.length) = t.ending (t.first as pre.length) := by
          rw [ending, ending, hact]
        rw [← take_ending, ← hending]
        exact congrArg (t.sent as pre.length).ending heq
      have hstart : t.ending (t.first as pre.length) ≠ .start := by
        rw [ending]
        split_ifs with hzero
        · nofun
        · rw [← hact]
          exact fun hs => heeded_not_ignored hv hzero (ignores_of_start hs)
      rw [deliver_stops hk' (by rw [harrive', hplace]; exact hstart), harrive', hplace, hstop hno]
      exact Option.some_inj.trans eq_comm

end Turns

section Ends

variable {t : Task} {as : List (List ℕ × List ℕ)} {l : DeliverPc} {k : ℕ}

lemma deliver_ends (h : t.Proper) : t.deliver as = some l ↔ ∃ k, t.EndsAt as k ∧ l = t.ending (t.first as k) := by
  have hall : t.dropped 0 = t := by
    have hpending : t.pending.filter (fun d => ¬ (d ∉ t.blocked ∧ t.Ignores d ∧ d < 0)) = t.pending :=
      Finset.filter_true_of_mem fun d _ hd => Nat.not_lt_zero d hd.2.2
    rw [dropped, hpending]
  have hstart : t.Turn as 0 0 :=
    ⟨⟨id, fun j hj => absurd hj (Nat.not_lt_zero j), fun j hj => absurd hj (Nat.not_lt_zero _),
      fun j hj => absurd hj (Nat.not_lt_zero j)⟩, fun _ => rfl, fun _ _ _ j hj => absurd hj (Nat.succ_ne_zero j)⟩
  have hiff := deliver_iff (l := l) [] t.place h rfl hstart
  have hbefore : t.before [] = t := rfl
  rw [hbefore, hall] at hiff
  refine hiff.trans (exists_congr fun k => and_congr_left fun _ => ?_)
  exact ⟨fun ⟨_, hk, hgo, hno⟩ => ⟨hk, fun j hj => hgo j (Nat.zero_le j) hj, hno⟩,
    fun ⟨hk, hgo, hno⟩ => ⟨Nat.zero_le k, hk, fun j _ hj => hgo j hj, hno⟩⟩

lemma sent_proper (h : t.Proper) (j : ℕ) : (t.sent as j).Proper := sends_proper _ h

lemma first_act (h : t.Proper) (hne : t.first as k ≠ 0) : t.act (t.first as k) ≠ .start := by
  have hact : (t.sent as k).act = t.act := sends_act _
  rw [← hact]
  exact fun hs => heeded_not_ignored (sent_proper h k) hne (ignores_of_start hs)

end Ends

end Task

lemma agrees_act {c : Prop} {l : DeliverPc} (hs : l ≠ .start) (ho : l ≠ .outside) (hc : l ≠ .checked) (hp : l ≠ .stopped) :
    Agrees c nr l ↔ (l.Returns → (c ↔ l.Asks nr)) := by
  cases l with
  | stopping => simp [Agrees, DeliverPc.Returns, DeliverPc.Asks]
  | framing => rfl
  | exiting => simp [Agrees, DeliverPc.Returns]
  | start | outside | checked | stopped => contradiction

lemma agrees_first (h : t.Proper) (hact : sig ≠ 0 → t.act sig ≠ .start) :
    Agrees (nr ∈ restartCalls ∧ t.Asks nr) nr (t.ending sig) ↔ sig ≠ 0 ∧
      ((t.act sig).Returns → (t.act sig).Asks nr → nr ∈ restartCalls) ∧
      ((t.act sig).Returns → nr ∈ restartCalls → sig ≠ t.nextSignal → ((t.act sig).Asks nr ↔ t.Asks nr)) := by
  by_cases hzero : sig = 0
  · rw [Task.ending, if_pos hzero]
    exact iff_of_false id fun h => h.1 hzero
  rw [Task.ending, if_neg hzero, agrees_act (hact hzero)]
  · -- the signal of the decision asks for the same as itself
    have hsame : (t.act sig).Returns → sig = t.nextSignal → ((t.act sig).Asks nr ↔ t.Asks nr) := by
      rintro hr rfl
      refine ⟨fun ha => ⟨hzero, fun hk => ?_, ha⟩, fun ha => ha.2.2⟩
      rw [hk, Task.act_sigkill h] at hr
      exact hr
    tauto
  all_goals
    rcases act_cases t sig with ha | ha | ha | ha <;>
    · rw [ha]
      nofun

lemma deliver_quiet_cons : t.deliver (([], []) :: as) =
    if t.killed then some (.exiting (some sigkill))
    else match t.take.place with
      | .start => t.take.deliver as
      | l => some l := rfl

lemma deliver_quiet {n : ℕ} (hn : t.pending.card < n) :
    ∃ l, t.deliver (List.replicate n ([], [])) = some l := by
  induction n generalizing t with
  | zero => omega
  | succ n ih =>
    rw [List.replicate_succ, deliver_quiet_cons]
    by_cases hk : t.killed = true
    · exact ⟨_, if_pos hk⟩
    rw [if_neg hk]
    cases hp : t.take.place with
    | start =>
      by_cases hzero : t.nextSignal = 0
      · rw [take_place_zero hzero] at hp
        cases hp
      have hmem := Task.nextSignal_mem (by simpa using hk) hzero
      have hpending : t.take.pending = t.pending.erase t.nextSignal := by rw [Task.take, if_neg hzero]
      have hcard := Finset.card_erase_lt_of_mem hmem
      exact ih (by rw [hpending]; omega)
    | _ => exact ⟨_, rfl⟩

lemma deliver_arrivals (as : List (List ℕ × List ℕ)) (t : Task) :
    ∃ n l, t.deliver (as ++ List.replicate n ([], [])) = some l := by
  induction as generalizing t with
  | nil =>
    obtain ⟨l, hl⟩ := deliver_quiet (Nat.lt_succ_self t.pending.card)
    exact ⟨t.pending.card + 1, l, hl⟩
  | cons ab as ih =>
    obtain ⟨a, b⟩ := ab
    by_cases hk : (a.foldl Task.send t).killed = true
    · exact ⟨0, _, Task.deliver_killed hk⟩
    by_cases hp : (b.foldl Task.send (a.foldl Task.send t)).take.place = .start
    · obtain ⟨n, l, hl⟩ := ih (b.foldl Task.send (a.foldl Task.send t)).take
      exact ⟨n, l, (Task.deliver_start hk hp).trans hl⟩
    · exact ⟨0, _, Task.deliver_stops hk hp⟩

section Reachable

variable {s : DeliveryState} {p : ℕ} {a : DeliveryAction}

lemma Move.zero (h : Move s p a t) (hs : ∀ q, 0 ∉ (s q).pending) : 0 ∉ t.pending := by
  have hp := hs p
  cases h with
  | send => exact Task.signalSend_zero hp
  | take =>
    unfold Task.take
    split_ifs
    · exact hp
    · exact fun hz => hp (Finset.mem_of_mem_erase hz)
  | stop =>
    unfold Task.stopSelf
    split_ifs <;> exact hp
  | sigaction =>
    dsimp only [Task.sigaction]
    split_ifs
    · exact fun hz => hp (Finset.mem_of_mem_erase hz)
    · exact hp
  | sigprocmask =>
    unfold Task.sigprocmask
    grind
  | @force sig _ hsig =>
    have hne : sig ≠ 0 := by
      rintro rfl
      revert hsig
      decide
    unfold Task.force
    grind
  | execReset =>
    unfold Task.execReset
    split_ifs <;> exact hp
  | alloc =>
    unfold Task.child
    split_ifs <;> exact Finset.notMem_empty 0
  | enter | check | resume | frame | frameFails | exit | sysExit | sigreturn | sigreturnFails | becomeUser | makeReady
  | free | reap | schedule | preempt | block | wake => exact hp

lemma proper_reachable (h : delivery.Reachable s) (p : ℕ) : (s p).Proper := by
  have hzero : ∀ q, 0 ∉ (s q).pending := by
    refine h.invariant (I := fun s => ∀ q, 0 ∉ (s q).pending) (fun s hi q => ?_) fun s a s' hs hst q => ?_
    · rcases hi q with hq | hq <;>
      · rw [hq]
        exact Finset.notMem_empty 0
    · obtain ⟨t, hm, rfl⟩ := hst
      by_cases hq : q = a.1
      · subst hq
        rw [update_self]
        exact hm.zero hs
      · rw [update_of_ne hq]
        exact hs q
  exact ⟨(Safe.reachable h p).handler, hzero p⟩

theorem restartAgrees_iff (s : DeliveryState) (hs : delivery.Reachable s) (p : ℕ) (nr rip : BitVec 64)
    (as : List (List ℕ × List ℕ)) :
    (RestartAgrees (s p) nr rip as ↔ (s p).isUser = true ∧ Foreseen (s p) nr as) ∧
      ∃ n l, (s p).signalDeliver (as ++ List.replicate n ([], [])) = some l := by
  have hproper := proper_reachable hs p
  generalize s p = t at hproper ⊢
  have hdeliver (huser : t.isUser = true) (as : List (List ℕ × List ℕ)) : t.signalDeliver as = t.deliver as := if_pos huser
  constructor
  · by_cases huser : t.isUser = true
    · have hends : RestartAgrees t nr rip as ↔ ∀ k, t.EndsAt as k →
          Agrees (nr ∈ restartCalls ∧ t.Asks nr) nr (t.ending (t.first as k)) := by
        simp only [RestartAgrees, hdeliver huser, restarted_iff, shouldRestart_iff, Option.mem_def, Task.deliver_ends hproper]
        grind
      rw [hends]
      refine ⟨fun h => ⟨huser, fun k hk => ?_, fun k hk => ?_, fun k hk => ?_⟩, fun ⟨_, h⟩ k hk => ?_⟩
      · exact ((agrees_first hproper (Task.first_act hproper)).1 (h k hk)).1
      · exact ((agrees_first hproper (Task.first_act hproper)).1 (h k hk)).2.1
      · exact ((agrees_first hproper (Task.first_act hproper)).1 (h k hk)).2.2
      · exact (agrees_first hproper (Task.first_act hproper)).2 ⟨h.some k hk, h.call k hk, h.same k hk⟩
    · refine iff_of_false (fun h => h .outside (if_neg huser)) fun h => huser h.1
  · by_cases huser : t.isUser = true
    · simp only [hdeliver huser]
      exact deliver_arrivals as t
    · exact ⟨0, _, if_neg huser⟩

end Reachable

section Reader

theorem restartAgrees_iff_handlingReader : ∃ s, delivery.Reachable s ∧ (s 1).nextSignal = 10 ∧
    (s 1).shouldRestart sysRead = true ∧ RestartAgrees (s 1) sysRead 0x3000 [([], [sigchld])] := by
  have h1 := Move.reach running_reachable (@Move.sigaction _ _ 10 (.user 0x1000) ⟨0x14000000, 0x2000, 0⟩ ⟨by decide, rfl⟩
    (by decide) (by decide) (by decide))
  have h2 := Move.reach h1 (.send 10)
  have hone {t : Task} {k : ℕ} (hk : t.EndsAt [([], [sigchld])] k) : k = 0 := Nat.lt_one_iff.1 hk.1
  refine ⟨_, h2, by decide, by decide,
    (restartAgrees_iff _ h2 1 sysRead 0x3000 [([], [sigchld])]).1.2 ⟨by decide, ⟨fun k hk => ?_, fun k hk _ _ => ?_,
      fun k hk _ _ hne => absurd ?_ hne⟩⟩⟩
  · obtain rfl := hone hk
    decide
  · decide
  · obtain rfl := hone hk
    decide

def ignoringReader : Task := { state := .running, isUser := true, pending := {sigchld} }

/-- `SIGCHLD` comes while it is blocked, and is not blocked any more when the read begins. -/
lemma ignoringReader_reachable : delivery.Reachable (update idleFirst 1 ignoringReader) := by
  have h1 := Move.reach running_reachable (@Move.sigprocmask _ _ 0 0x20000 ⟨by decide, rfl⟩)
  have h2 := Move.reach h1 (.send sigchld)
  have h3 := Move.reach h2 (@Move.sigprocmask _ _ 1 0x20000 ⟨by decide, rfl⟩)
  have hsame : ignoringReader = Task.sigprocmask (Task.send (Task.sigprocmask { state := .running, isUser := true } 0 0x20000)
      sigchld) 1 0x20000 := by
    rfl
  rw [hsame]
  exact h3

lemma ignoringReader_next : ignoringReader.nextSignal = sigchld := by
  simp [Task.nextSignal, ignoringReader, sigkill, sigchld]
  rfl

lemma ignoringReader_take :
    ignoringReader.take = { ignoringReader with pending := ∅, place := .start } := by
  rw [Task.take, if_neg (by rw [ignoringReader_next]; decide), ignoringReader_next]
  rfl

theorem not_restartAgrees_ignoring : ∃ s, delivery.Reachable s ∧ s 1 = ignoringReader ∧
    ¬ RestartAgrees (s 1) sysRead 0 [([], []), ([], [])] := by
  have hnext : ({ ignoringReader with pending := ∅, place := .start } : Task).nextSignal = 0 := by
    simp [Task.nextSignal, ignoringReader]
  refine ⟨_, ignoringReader_reachable, update_self .., fun h => h .outside ?_⟩
  rw [update_self]
  change Task.deliver [([], []), ([], [])] ignoringReader = some .outside
  simp only [Task.deliver, List.foldl_nil, ignoringReader_take, take_place_zero hnext]
  rfl

end Reader

end MyOS.Proc
