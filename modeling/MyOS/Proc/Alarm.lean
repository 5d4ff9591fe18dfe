import MyOS.Proc.Groups
import MyOS.Proc.Sleep

/-! `sys_alarm` and the check of the alarms at every tick of the timer. -/

namespace MyOS.Proc

open Library Function

structure AlarmCall where
  now : ℕ
  seconds : ℕ
  deriving DecidableEq, Repr

structure AlarmReturn where
  now : ℕ
  left : ℕ
  replaced : Option ℕ
  deriving DecidableEq, Repr

/-- The slots of the process table with `alarm_tick`, and the calls under way. `checked` says that
`signal_check_alarms_locked` has run since the last tick. What follows is not in the source: the tick,
as an integer, for which a process last asked and that has not come, the signals that are due with
their ticks and those that were sent, and the calls that have returned. -/
structure AlarmState where
  ticks : ℕ
  checked : Bool := true
  alive : ℕ → Bool := fun _ => false
  alarmTick : ℕ → ℕ := fun _ => 0
  call : ℕ → Option AlarmCall := fun _ => none
  request : ℕ → Option ℕ := fun _ => none
  due : List (ℕ × ℕ) := []
  sent : List (ℕ × ℕ) := []
  returns : List AlarmReturn := []

def secondsLeft (alarmTick now : ℕ) : ℕ :=
  if now < alarmTick then (alarmTick - now + timerHz - 1) % 2 ^ 64 / timerHz else 0

def alarmAt (c : AlarmCall) : ℕ :=
  if c.seconds = 0 then 0 else (c.now + c.seconds * timerHz) % 2 ^ 64

def AlarmCall.request (c : AlarmCall) : Option ℕ :=
  if c.seconds = 0 then none else some (c.now + c.seconds * timerHz)

namespace AlarmState

variable (s : AlarmState)

def Fires (p : ℕ) : Prop := s.alarmTick p ≠ 0 ∧ s.alarmTick p ≤ s.ticks ∧ s.alive p = true

instance (p : ℕ) : Decidable (s.Fires p) := inferInstanceAs (Decidable (_ ∧ _))

def Due (p : ℕ) : Prop := (∃ d ∈ s.request p, d ≤ s.ticks) ∧ s.alive p = true

instance (p : ℕ) : Decidable (s.Due p) := inferInstanceAs (Decidable (_ ∧ _))

def check : AlarmState :=
  { s with
    checked := true
    alarmTick := fun p => if p < maxProcs ∧ s.Fires p then 0 else s.alarmTick p
    sent := s.sent ++ ((List.range maxProcs).filter fun p => s.Fires p).map fun p => (p, s.ticks)
    request := fun p => if p < maxProcs ∧ s.Due p then none else s.request p
    due := s.due ++ ((List.range maxProcs).filter fun p => s.Due p).map fun p => (p, s.ticks) }

def commit (p : ℕ) (c : AlarmCall) : AlarmState :=
  { s with
    call := update s.call p none
    alarmTick := update s.alarmTick p (alarmAt c)
    request := update s.request p c.request
    returns := s.returns ++ [⟨c.now, secondsLeft (s.alarmTick p) c.now, s.request p⟩] }

end AlarmState

inductive AlarmAction
  | tick
  | check
  | read (p seconds : ℕ)
  | commit (p : ℕ)
  | alloc (p : ℕ)
  | exit (p : ℕ)

/-- The counter of the ticks advances on one CPU, which checks the alarms before the next tick; the
calls of the processes run on any. -/
inductive AlarmStep : AlarmState → AlarmAction → AlarmState → Prop
  | tick {s : AlarmState} (h : s.checked = true) :
      AlarmStep s .tick { s with ticks := (s.ticks + 1) % 2 ^ 64, checked := false }
  | check {s : AlarmState} (h : s.checked = false) : AlarmStep s .check s.check
  | read {s : AlarmState} {p seconds : ℕ} (hp : p < maxProcs) (ha : s.alive p = true)
      (hc : s.call p = none) (hs : seconds < 2 ^ 64) :
      AlarmStep s (.read p seconds)
        { s with call := update s.call p (some ⟨s.ticks, seconds⟩) }
  | commit {s : AlarmState} {p : ℕ} {c : AlarmCall} (hc : s.call p = some c) :
      AlarmStep s (.commit p) (s.commit p c)
  | alloc {s : AlarmState} {p : ℕ} (hp : p < maxProcs) (ha : s.alive p = false) :
      AlarmStep s (.alloc p) { s with
        alive := update s.alive p true
        alarmTick := update s.alarmTick p 0
        request := update s.request p none }
  | exit {s : AlarmState} {p : ℕ} (ha : s.alive p = true) (hc : s.call p = none) :
      AlarmStep s (.exit p) { s with
        alive := update s.alive p false
        request := update s.request p none }

def alarms : System AlarmState AlarmAction where
  init s := s.ticks < 2 ^ 64 ∧ s = { ticks := s.ticks }
  step := AlarmStep

namespace AlarmState

/-- The end of an alarm and the rounding of what is left of it fit into 64 bits, no alarm of the caller
is due that waits for its check, and the counter does not wrap. -/
def Fits (s : AlarmState) : AlarmAction → Prop
  | .tick => s.ticks + 1 < 2 ^ 64
  | .commit p => ∀ c ∈ s.call p, c.now + c.seconds * timerHz < 2 ^ 64 ∧
      (s.alarmTick p ≠ 0 → c.now < s.alarmTick p ∧ s.alarmTick p - c.now + timerHz - 1 < 2 ^ 64)
  | _ => True

structure Accurate (s : AlarmState) : Prop where
  sent : s.sent = s.due
  returns : ∀ r ∈ s.returns, r.left = (r.replaced.elim 0 fun d => (d - r.now + timerHz - 1) / timerHz) ∧
    (r.left = 0 ↔ r.replaced = none)

structure Kept (s : AlarmState) : Prop extends Accurate s where
  tick : ∀ p, s.alive p = true → s.alarmTick p = (s.request p).getD 0
  range : ∀ p, ∀ d ∈ s.request p, 0 < d ∧ d < 2 ^ 64
  dead : ∀ p, s.alive p = false → s.request p = none ∧ s.call p = none

variable {s t : AlarmState} {a : AlarmAction}

namespace Kept

lemma fires_iff (h : s.Kept) (p : ℕ) : s.Fires p ↔ s.Due p := by
  unfold Fires Due
  constructor
  · rintro ⟨h₁, h₂, ha⟩
    rw [h.tick p ha] at h₁ h₂
    cases hr : s.request p with
    | none => simp [hr] at h₁
    | some d => exact ⟨⟨d, rfl, by simpa [hr] using h₂⟩, ha⟩
  · rintro ⟨⟨d, hd, hle⟩, ha⟩
    have hpos := (h.range p d hd).1
    rw [h.tick p ha, Option.mem_def.1 hd]
    exact ⟨hpos.ne', hle, ha⟩

lemma check (h : s.Kept) : s.check.Kept := by
  have hiff := h.fires_iff
  have hsent : s.check.sent = s.check.due := by
    simp only [AlarmState.check, h.sent, hiff]
  refine ⟨⟨hsent, h.returns⟩, fun p ha => ?_, fun p d hd => ?_, fun p ha => ?_⟩
  · simp only [AlarmState.check, hiff]
    split_ifs
    · rfl
    · exact h.tick p ha
  · simp only [AlarmState.check] at hd
    split_ifs at hd
    · simp at hd
    · exact h.range p d hd
  · simp only [AlarmState.check]
    obtain ⟨h₁, h₂⟩ := h.dead p ha
    exact ⟨by split_ifs; exacts [rfl, h₁], h₂⟩

lemma returned {p : ℕ} {c : AlarmCall} (h : s.Kept) (hc : s.call p = some c) (hfit : s.Fits (.commit p)) :
    secondsLeft (s.alarmTick p) c.now =
        ((s.request p).elim 0 fun d => (d - c.now + timerHz - 1) / timerHz) ∧
      (secondsLeft (s.alarmTick p) c.now = 0 ↔ s.request p = none) := by
  have ha : s.alive p = true := by
    by_contra ha
    have hnone := (h.dead p (by simpa using ha)).2
    rw [hc] at hnone
    cases hnone
  have htick := h.tick p ha
  have hold := (hfit c hc).2
  unfold secondsLeft
  rw [htick] at hold ⊢
  cases hr : s.request p with
  | none => simp
  | some d =>
    obtain ⟨hpos, -⟩ := h.range p d hr
    rw [hr, Option.getD_some] at hold
    obtain ⟨hlt, hround⟩ := hold hpos.ne'
    rw [Option.getD_some, if_pos hlt, Nat.mod_eq_of_lt hround]
    refine ⟨rfl, ?_⟩
    simp only [timerHz, reduceCtorEq, iff_false]
    omega

lemma commit {p : ℕ} {c : AlarmCall} (h : s.Kept) (hc : s.call p = some c)
    (hfit : s.Fits (.commit p)) : (s.commit p c).Kept := by
  have hend := (hfit c hc).1
  have hreq : alarmAt c = c.request.getD 0 ∧ ∀ d ∈ c.request, 0 < d ∧ d < 2 ^ 64 := by
    unfold alarmAt AlarmCall.request
    split_ifs with h0
    · simp
    · have hpos : 0 < c.now + c.seconds * timerHz := by
        simp only [timerHz]
        omega
      rw [Nat.mod_eq_of_lt hend]
      refine ⟨rfl, fun d hd => ?_⟩
      cases hd
      exact ⟨hpos, hend⟩
  refine ⟨⟨h.sent, fun r hr => ?_⟩, fun q hq => ?_, fun q d hd => ?_, fun q hq => ?_⟩
  · rcases List.mem_append.1 hr with hr | hr
    · exact h.returns r hr
    · rw [List.mem_singleton.1 hr]
      exact h.returned hc hfit
  · by_cases hqp : q = p
    · subst hqp
      simpa [AlarmState.commit] using hreq.1
    · simpa [AlarmState.commit, hqp] using h.tick q hq
  · by_cases hqp : q = p
    · subst hqp
      exact hreq.2 d (by simpa [AlarmState.commit] using hd)
    · exact h.range q d (by simpa [AlarmState.commit, hqp] using hd)
  · have hdead := h.dead q hq
    by_cases hqp : q = p
    · subst hqp
      rw [hc] at hdead
      exact absurd hdead.2 (by simp)
    · simpa [AlarmState.commit, hqp] using hdead

lemma alloc {p : ℕ} (h : s.Kept) : Kept { s with
    alive := update s.alive p true
    alarmTick := update s.alarmTick p 0
    request := update s.request p none } := by
  refine ⟨⟨h.sent, h.returns⟩, fun q hq => ?_, fun q d hd => ?_, fun q hq => ?_⟩
  · by_cases hqp : q = p
    · simp [hqp]
    · simpa [hqp] using h.tick q (by simpa [hqp] using hq)
  · by_cases hqp : q = p
    · simp [hqp] at hd
    · exact h.range q d (by simpa [hqp] using hd)
  · by_cases hqp : q = p
    · simp [hqp] at hq
    · simpa [hqp] using h.dead q (by simpa [hqp] using hq)

lemma exit {p : ℕ} (h : s.Kept) (hc : s.call p = none) : Kept { s with
    alive := update s.alive p false
    request := update s.request p none } := by
  refine ⟨⟨h.sent, h.returns⟩, fun q hq => ?_, fun q d hd => ?_, fun q hq => ?_⟩
  · by_cases hqp : q = p
    · simp [hqp] at hq
    · simpa [hqp] using h.tick q (by simpa [hqp] using hq)
  · by_cases hqp : q = p
    · simp [hqp] at hd
    · exact h.range q d (by simpa [hqp] using hd)
  · by_cases hqp : q = p
    · simp [hqp, hc]
    · simpa [hqp] using h.dead q (by simpa [hqp] using hq)

lemma step (h : s.Kept) (hfit : s.Fits a) (hst : AlarmStep s a t) : t.Kept := by
  cases hst with
  | tick => exact ⟨⟨h.sent, h.returns⟩, h.tick, h.range, h.dead⟩
  | check => exact h.check
  | @read p seconds hp ha hc hs =>
    refine ⟨⟨h.sent, h.returns⟩, h.tick, h.range, fun q hq => ?_⟩
    have hqp : q ≠ p := by
      rintro rfl
      simp [ha] at hq
    simpa [hqp] using h.dead q hq
  | commit hc => exact h.commit hc hfit
  | alloc => exact h.alloc
  | exit ha hc => exact h.exit hc

end Kept

theorem reachable_accurate (h : (alarms.guarded Fits).Reachable s) : s.Accurate := by
  have hinv : s.Kept := by
    refine h.invariant ?_ fun s a t hi hst => hi.step hst.1 hst.2
    rintro s ⟨-, hs⟩
    rw [hs]
    exact ⟨⟨rfl, by simp⟩, by simp, by simp, by simp⟩
  exact hinv.toAccurate

theorem reachable_accurate_cancel : ∃ s : AlarmState,
    s.returns = [⟨7, 0, none⟩, ⟨7, 1, some 107⟩] ∧ s.Accurate := by
  have h₀ : (alarms.guarded Fits).Reachable { ticks := 7 } := .init ⟨by decide, rfl⟩
  have h₁ := System.Reachable.step (AlarmAction.alloc 0) h₀ ⟨trivial, .alloc (by decide) rfl⟩
  have h₂ := System.Reachable.step (AlarmAction.read 0 1) h₁
    ⟨trivial, .read (by decide) rfl rfl (by decide)⟩
  have h₃ := System.Reachable.step (AlarmAction.commit 0) h₂ ⟨by
    rintro c hc
    cases hc
    exact ⟨by decide, fun h0 => absurd rfl h0⟩, .commit rfl⟩
  have h₄ := System.Reachable.step (AlarmAction.read 0 0) h₃
    ⟨trivial, .read (by decide) rfl rfl (by decide)⟩
  have h₅ := System.Reachable.step (AlarmAction.commit 0) h₄ ⟨by
    rintro c hc
    cases hc
    exact ⟨by decide, fun _ => ⟨by decide, by decide⟩⟩, .commit rfl⟩
  exact ⟨_, by decide, reachable_accurate h₅⟩

theorem not_accurate_overflow : ¬ ∀ s, alarms.Reachable s → s.Accurate := by
  intro h
  have h₀ : alarms.Reachable { ticks := 7 } := .init ⟨by decide, rfl⟩
  have h₁ := System.Reachable.step (AlarmAction.alloc 0) h₀ (.alloc (by decide) rfl)
  have h₂ := System.Reachable.step (AlarmAction.read 0 (2 ^ 62)) h₁
    (.read (by decide) rfl rfl (by decide))
  have h₃ := System.Reachable.step (AlarmAction.commit 0) h₂ (.commit rfl)
  have h₄ := System.Reachable.step AlarmAction.tick h₃ (.tick rfl)
  have h₅ := System.Reachable.step AlarmAction.check h₄ (.check rfl)
  exact absurd (h _ h₅).sent (by decide)

end AlarmState

end MyOS.Proc
