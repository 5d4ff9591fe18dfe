import MyOS.Library.System

/-! `SYS_SLEEP`: a sleep that signals interrupt and that goes on with the time that was left. -/

namespace MyOS.Proc

open Library

def timerHz : ℕ := 100

def sleepTicks (ms : ℕ) : ℕ := (ms * timerHz + 999) % 2 ^ 64 / 1000

def wakeTick (now ms : ℕ) : ℕ :=
  (now + if sleepTicks ms = 0 then 1 else sleepTicks ms) % 2 ^ 64

def msLeft (now wake : ℕ) : ℕ :=
  if now < wake then (wake - now) * 1000 % 2 ^ 64 / timerHz else 0

/-- Where the process is: before the `syscall` instruction, in the loop of `proc_sleep_ms`, behind it,
back in user code with 0, or with `-EINTR`. -/
inductive SleepPlace
  | before
  | looping (wake : ℕ)
  | woken (wake : ℕ)
  | returned
  | failed
  deriving DecidableEq, Repr

/-- `slept` and `lefts` are not in the source: the ticks that have passed in `proc_sleep_ms`, and what
was written to `rdi`. -/
structure Sleeper where
  ticks : ℕ
  rdi : ℕ
  place : SleepPlace := .before
  slept : ℕ := 0
  lefts : List ℕ := []
  deriving DecidableEq, Repr

inductive SleepAction
  | tick
  | enter
  | wake
  | interrupt
  | finish (restart : Bool)

namespace Sleeper

def Sleeping (s : Sleeper) : Prop :=
  match s.place with
  | .looping _ | .woken _ => True
  | _ => False

instance (s : Sleeper) : Decidable s.Sleeping := by
  unfold Sleeping
  cases s.place <;> infer_instance

def tick (s : Sleeper) : Sleeper :=
  { s with ticks := (s.ticks + 1) % 2 ^ 64, slept := if s.Sleeping then s.slept + 1 else s.slept }

/-- What the system call does with the result of `proc_sleep_ms`; `restart` is what
`signal_should_restart` says. -/
def finish (s : Sleeper) (wake : ℕ) (restart : Bool) : Sleeper :=
  let left := msLeft s.ticks wake
  if left = 0 then { s with place := .returned }
  else { s with
    rdi := left
    place := if restart then .before else .failed
    lefts := s.lefts ++ [left] }

inductive Step : Sleeper → SleepAction → Sleeper → Prop
  | tick {s : Sleeper} : Step s .tick s.tick
  | enter {s : Sleeper} (h : s.place = .before) :
      Step s .enter { s with place := .looping (wakeTick s.ticks s.rdi) }
  | wake {s : Sleeper} {w : ℕ} (h : s.place = .looping w) (hw : w ≤ s.ticks) :
      Step s .wake { s with place := .woken w }
  | interrupt {s : Sleeper} {w : ℕ} (h : s.place = .looping w) :
      Step s .interrupt { s with place := .woken w }
  | finish {s : Sleeper} {w : ℕ} (h : s.place = .woken w) (restart : Bool) :
      Step s (.finish restart) (s.finish w restart)

end Sleeper

def sleepSystem (ms : ℕ) : System Sleeper SleepAction where
  init s := s.ticks < 2 ^ 64 ∧ s = { ticks := s.ticks, rdi := ms }
  step := Sleeper.Step

/-- No sum or product of a sleep overflows, and the counter of the ticks does not wrap. -/
def Sleeper.Fits (s : Sleeper) : SleepAction → Prop
  | .tick => s.ticks + 1 < 2 ^ 64
  | .enter => s.rdi * timerHz + 999 < 2 ^ 64 ∧ s.ticks + sleepTicks s.rdi + 1 < 2 ^ 64
  | _ => True

structure Sleeper.Lasts (ms : ℕ) (s : Sleeper) : Prop where
  slept : s.place = .returned → ms * timerHz ≤ s.slept * 1000
  lefts : s.lefts.Pairwise (· ≥ ·)
  first : ∀ l ∈ s.lefts, l ≤ ms + 10

namespace Sleeper

variable {ms : ℕ} {s t : Sleeper} {a : SleepAction}

structure Pending (ms : ℕ) (s : Sleeper) (wake : ℕ) : Prop where
  enough : ms * 100 ≤ 1000 * (s.slept + (wake - s.ticks))
  below : ∀ l ∈ s.lefts, (wake - s.ticks) * 10 ≤ l
  first : (wake - s.ticks) * 10 ≤ ms + 10
  fits : 1000 * (wake - s.ticks) < 2 ^ 64

structure Lasting (ms : ℕ) (s : Sleeper) : Prop where
  lefts : s.lefts.Pairwise (· ≥ ·)
  first : ∀ l ∈ s.lefts, l ≤ ms + 10
  before : s.place = .before → ms * 100 ≤ s.slept * 1000 + s.rdi * 100 ∧
    (∀ l ∈ s.lefts, s.rdi ≤ l) ∧ (s.rdi = ms ∧ s.lefts = [] ∨ s.rdi % 10 = 0 ∧ 0 < s.rdi ∧ s.rdi ≤ ms + 10)
  sleeping : ∀ w, s.place = .looping w ∨ s.place = .woken w → s.Pending ms w
  returned : s.place = .returned → ms * timerHz ≤ s.slept * 1000

lemma Pending.msLeft_eq {w : ℕ} (h : s.Pending ms w) : msLeft s.ticks w = (w - s.ticks) * 10 := by
  have hfits := h.fits
  unfold msLeft timerHz
  split_ifs with hlt
  · rw [Nat.mul_comm, Nat.mod_eq_of_lt hfits]
    omega
  · omega

lemma Pending.tick {w : ℕ} (h : s.Pending ms w) (hs : s.Sleeping) (hfit : s.ticks + 1 < 2 ^ 64) :
    s.tick.Pending ms w := by
  obtain ⟨h₁, h₂, h₃, h₄⟩ := h
  unfold Sleeper.tick
  rw [if_pos hs, Nat.mod_eq_of_lt hfit]
  refine ⟨?_, fun l hl => ?_, ?_, ?_⟩
  · dsimp only
    omega
  · have := h₂ l hl
    dsimp only
    omega
  · dsimp only
    omega
  · dsimp only
    omega

namespace Lasting

lemma start (n : ℕ) : Lasting ms { ticks := n, rdi := ms } where
  lefts := List.Pairwise.nil
  first := by simp
  before _ := ⟨Nat.le_add_left _ _, by simp, .inl ⟨rfl, rfl⟩⟩
  sleeping := by simp
  returned := by simp

lemma tick (h : Lasting ms s) (hfit : s.ticks + 1 < 2 ^ 64) : Lasting ms s.tick := by
  have hslept : s.slept ≤ s.tick.slept := by
    unfold Sleeper.tick
    split_ifs <;> simp
  refine ⟨h.lefts, h.first, fun hp => ?_, fun w hp => ?_, fun hp => ?_⟩
  · obtain ⟨h₁, h₂⟩ := h.before hp
    exact ⟨h₁.trans (Nat.add_le_add_right (Nat.mul_le_mul_right _ hslept) _), h₂⟩
  · refine (h.sleeping w hp).tick ?_ hfit
    rcases hp with hp | hp
    · rw [Sleeping, show s.place = _ from hp]
      trivial
    · rw [Sleeping, show s.place = _ from hp]
      trivial
  · exact (h.returned hp).trans (Nat.mul_le_mul_right _ hslept)

lemma enter (h : Lasting ms s) (hp : s.place = .before) (hfit : s.Fits .enter) :
    Lasting ms { s with place := .looping (wakeTick s.ticks s.rdi) } := by
  obtain ⟨hmul, hadd⟩ := hfit
  obtain ⟨h₁, h₂, h₃⟩ := h.before hp
  have hticks : sleepTicks s.rdi = (s.rdi * timerHz + 999) / 1000 := by
    rw [sleepTicks, Nat.mod_eq_of_lt hmul]
  refine ⟨h.lefts, h.first, by simp, fun w hw => ?_, by simp⟩
  obtain rfl : wakeTick s.ticks s.rdi = w := by simpa using hw
  have hwake : wakeTick s.ticks s.rdi - s.ticks =
      if sleepTicks s.rdi = 0 then 1 else sleepTicks s.rdi := by
    rw [wakeTick, Nat.mod_eq_of_lt (by split_ifs <;> omega), Nat.add_sub_cancel_left]
  simp only [timerHz] at hmul hticks
  constructor
  · dsimp only
    rw [hwake]
    split_ifs <;> omega
  · intro l hl
    have hle := h₂ l hl
    dsimp only
    rw [hwake]
    rcases h₃ with ⟨-, hnil⟩ | ⟨hmod, hpos, -⟩
    · simp [hnil] at hl
    · split_ifs <;> omega
  · dsimp only
    rw [hwake]
    rcases h₃ with ⟨hms, -⟩ | ⟨hmod, hpos, hle⟩
    · split_ifs <;> omega
    · split_ifs <;> omega
  · dsimp only
    rw [hwake]
    split_ifs <;> omega

lemma leave (h : Lasting ms s) {w : ℕ} (hp : s.place = .looping w) :
    Lasting ms { s with place := .woken w } := by
  refine ⟨h.lefts, h.first, by simp, fun v hv => ?_, by simp⟩
  obtain rfl : w = v := by simpa using hv
  obtain ⟨h₁, h₂, h₃, h₄⟩ := h.sleeping w (.inl hp)
  exact ⟨h₁, h₂, h₃, h₄⟩

lemma finish (h : Lasting ms s) {w : ℕ} (hp : s.place = .woken w) (restart : Bool) :
    Lasting ms (s.finish w restart) := by
  have hpend := h.sleeping w (.inr hp)
  have hleft := hpend.msLeft_eq
  obtain ⟨h₁, h₂, h₃, -⟩ := hpend
  unfold Sleeper.finish
  rw [hleft]
  dsimp only
  split_ifs with h0 hr
  · refine ⟨h.lefts, h.first, by simp, by simp, fun _ => ?_⟩
    have hzero : w - s.ticks = 0 := by omega
    rw [hzero, Nat.add_zero, Nat.mul_comm 1000] at h₁
    exact h₁
  · have hround : (w - s.ticks) * 10 % 10 = 0 := Nat.mul_mod_left _ _
    refine ⟨?_, ?_, fun _ => ⟨?_, ?_, .inr ⟨hround, Nat.pos_of_ne_zero h0, h₃⟩⟩, by simp, by simp⟩
    · exact List.pairwise_append.2 ⟨h.lefts, List.pairwise_singleton _ _, by simpa using h₂⟩
    · simpa [or_imp, forall_and] using ⟨h.first, h₃⟩
    · dsimp only
      omega
    · simpa [or_imp, forall_and] using h₂
  · refine ⟨?_, ?_, by simp, by simp, by simp⟩
    · exact List.pairwise_append.2 ⟨h.lefts, List.pairwise_singleton _ _, by simpa using h₂⟩
    · simpa [or_imp, forall_and] using ⟨h.first, h₃⟩

lemma step (h : Lasting ms s) (hfit : s.Fits a) (hst : Step s a t) : Lasting ms t := by
  cases hst with
  | tick => exact h.tick hfit
  | enter hp => exact h.enter hp hfit
  | wake hp => exact h.leave hp
  | interrupt hp => exact h.leave hp
  | finish hp restart => exact h.finish hp restart

end Lasting

theorem reachable_lasts (h : ((sleepSystem ms).guarded Fits).Reachable s) : s.Lasts ms := by
  have hinv : Lasting ms s := by
    refine h.invariant ?_ fun s a t hi hst => hi.step hst.1 hst.2
    rintro s ⟨-, hs⟩
    rw [hs]
    exact .start _
  exact ⟨hinv.returned, hinv.lefts, hinv.first⟩

theorem reachable_lasts_short : ∃ s : Sleeper, s.place = .returned ∧ s.slept = 1 ∧ s.Lasts 5 := by
  have h₀ : ((sleepSystem 5).guarded Fits).Reachable { ticks := 7, rdi := 5 } :=
    .init ⟨by decide, rfl⟩
  have h₁ := System.Reachable.step SleepAction.enter h₀ ⟨⟨by decide, by decide⟩, .enter rfl⟩
  have h₂ := System.Reachable.step SleepAction.tick h₁ ⟨show (8 : ℕ) < 2 ^ 64 by decide, .tick⟩
  have h₃ := System.Reachable.step SleepAction.wake h₂ ⟨trivial, .wake rfl (by decide)⟩
  have h₄ := System.Reachable.step (SleepAction.finish true) h₃ ⟨trivial, .finish rfl true⟩
  exact ⟨_, by decide, by decide, reachable_lasts h₄⟩

theorem not_lasts_overflow : ¬ ∀ ms < 2 ^ 64, ∀ s, (sleepSystem ms).Reachable s → s.Lasts ms := by
  intro h
  have h₀ : (sleepSystem 184467440737095517).Reachable { ticks := 0, rdi := 184467440737095517 } :=
    .init ⟨by decide, rfl⟩
  have h₁ := System.Reachable.step SleepAction.enter h₀ (.enter rfl)
  have h₂ := System.Reachable.step SleepAction.tick h₁ .tick
  have h₃ := System.Reachable.step SleepAction.wake h₂ (.wake rfl (by decide))
  have h₄ := System.Reachable.step (SleepAction.finish true) h₃ (.finish rfl true)
  exact absurd ((h _ (by decide) _ h₄).slept (by decide)) (by decide)

end Sleeper

end MyOS.Proc
