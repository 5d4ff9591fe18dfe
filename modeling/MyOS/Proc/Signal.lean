import MyOS.Library.System

/-! Processes, the signals sent to them, and the waits that a signal interrupts. -/

namespace MyOS.Proc

open Library Function

inductive ProcState
  | unused
  | embryo
  | ready
  | running
  | blocked
  | zombie
  | dead
  | stopped
  deriving DecidableEq, Repr

def nsig : ℕ := 32
def sigint : ℕ := 2
def sigkill : ℕ := 9
def sigchld : ℕ := 17
def sigcont : ℕ := 18
def sigstop : ℕ := 19
def sigtstp : ℕ := 20
def sigttin : ℕ := 21
def sigttou : ℕ := 22
def sigurg : ℕ := 23
def sigwinch : ℕ := 28

def unblockable : Finset ℕ := {sigkill, sigstop}
def stopSignals : Finset ℕ := {sigstop, sigtstp, sigttin, sigttou}

def defaultIgnore (sig : ℕ) : Bool :=
  sig = sigchld ∨ sig = sigcont ∨ sig = sigwinch ∨ sig = sigurg

def defaultStop (sig : ℕ) : Bool := sig ∈ stopSignals

inductive SigHandler
  | dfl
  | ign
  | user (addr : ℕ)
  deriving DecidableEq, Repr

inductive Channel
  | sleep
  | pause
  | proc (p : ℕ)
  | input
  | pipeCount (i : ℕ)
  | pipeWriters (i : ℕ)
  deriving DecidableEq, Repr

/-- The locks, apart from `proc_lock`, that are held when one of the waits below begins. -/
inductive SiteLock
  | input
  | pipe (i : ℕ)
  deriving DecidableEq, Repr

/-- The waits that a signal interrupts: `proc_sleep_ms`, `proc_wait`, `sys_pause`, `console_getc`,
`pipe_read` and `pipe_write`. -/
inductive Wait
  | sleepMs
  | child
  | pause
  | tty
  | pipeRead (i : ℕ)
  | pipeWrite (i : ℕ)
  deriving DecidableEq, Repr

namespace Wait

/-- The lock that the loop of the wait holds; `none` is `proc_lock`. -/
def lock : Wait → Option SiteLock
  | .sleepMs | .child | .pause => none
  | .tty => some .input
  | .pipeRead i | .pipeWrite i => some (.pipe i)

def channel (p : ℕ) : Wait → Channel
  | .sleepMs => .sleep
  | .child => .proc p
  | .pause => .pause
  | .tty => .input
  | .pipeRead i => .pipeCount i
  | .pipeWrite i => .pipeWriters i

def wakes : Wait → Option Channel
  | .pipeWrite i => some (.pipeCount i)
  | _ => none

end Wait

inductive SleepPc
  | outside
  | entering (w : Wait)
  | looping (w : Wait)
  | waking (w : Wait) (c : Channel)
  | checked (w : Wait)
  | locked (w : Wait)
  | committing (w : Wait)
  | asleep (w : Wait)
  | resumed (w : Wait)
  | relock (w : Wait)
  deriving DecidableEq, Repr

structure Process where
  state : ProcState := .unused
  isUser : Bool := false
  isIdle : Bool := false
  pending : Finset ℕ := ∅
  blocked : Finset ℕ := ∅
  handler : ℕ → SigHandler := fun _ => .dfl
  killed : Bool := false
  channel : Option Channel := none
  pc : SleepPc := .outside

namespace Process

def Interrupted (p : Process) : Prop := p.killed = true ∨ ∃ sig ∈ p.pending, sig ∉ p.blocked

def wake (p : Process) : Process := if p.state = .blocked then { p with state := .ready } else p

def Ignores (p : Process) (sig : ℕ) : Prop :=
  p.handler sig = .ign ∨ p.handler sig = .dfl ∧ defaultIgnore sig = true

instance (p : Process) (sig : ℕ) : Decidable (p.Ignores sig) := by
  unfold Ignores
  infer_instance

def Receives (p : Process) (sig : ℕ) : Prop :=
  0 < sig ∧ sig < nsig ∧ p.isUser = true ∧ p.isIdle = false ∧ p.state ≠ .unused ∧
    p.state ≠ .zombie ∧ p.state ≠ .dead

instance (p : Process) (sig : ℕ) : Decidable (p.Receives sig) := by
  unfold Receives
  infer_instance

def signalSend (p : Process) (sig : ℕ) : Process :=
  if ¬ p.Receives sig then p
  else
    let p := if sig = sigkill then { p with killed := true } else p
    let p := if sig = sigcont then
        { p with pending := p.pending \ stopSignals
                 state := if p.state = .stopped then .ready else p.state }
      else p
    let p := if defaultStop sig then { p with pending := p.pending.erase sigcont } else p
    if sig ∉ unblockable ∧ sig ∉ p.blocked ∧ p.Ignores sig then p
    else
      let p := { p with pending := insert sig p.pending }
      if sig ∉ p.blocked ∨ sig ∈ unblockable then
        if p.state = .blocked then p.wake
        else if p.state = .stopped ∧ sig = sigkill then { p with state := .ready }
        else p
      else p

end Process

inductive Holder
  | proc (p : ℕ)
  | cpu (c : ℕ)
  deriving DecidableEq, Repr

structure SignalState where
  proc : ℕ → Process := fun _ => {}
  procLock : Option Holder := none
  siteLock : SiteLock → Option ℕ := fun _ => none

inductive SignalAction
  | enter (p : ℕ) (w : Wait)
  | lockSite (p : ℕ)
  | leave (p : ℕ)
  | check (p : ℕ)
  | wakeOthers (p : ℕ)
  | lockProc (p : ℕ)
  | unlockSite (p : ℕ)
  | block (p : ℕ)
  | resume (p : ℕ)
  | unsleep (p : ℕ)
  | preempt (p : ℕ)
  | run (p : ℕ)
  | elsewhere (p : ℕ) (q : Process)
  | lockCpu (c : ℕ)
  | send (c p sig : ℕ)
  | wakeup (c : ℕ) (chan : Channel)
  | expire (c p : ℕ)
  | unlockCpu (c : ℕ)

namespace SignalState

def setProc (s : SignalState) (p : ℕ) (q : Process) : SignalState :=
  { s with proc := update s.proc p q }

def setPc (s : SignalState) (p : ℕ) (pc : SleepPc) : SignalState :=
  s.setProc p { s.proc p with pc := pc }

def wakeup (s : SignalState) (c : Channel) : SignalState :=
  { s with proc := fun p => if (s.proc p).channel = some c then (s.proc p).wake else s.proc p }

def LockFree (s : SignalState) (w : Wait) : Prop :=
  match w.lock with
  | none => s.procLock = none
  | some l => s.siteLock l = none

def takeLock (s : SignalState) (p : ℕ) (w : Wait) : SignalState :=
  match w.lock with
  | none => { s with procLock := some (.proc p) }
  | some l => { s with siteLock := update s.siteLock l (some p) }

def dropLock (s : SignalState) (w : Wait) : SignalState :=
  match w.lock with
  | none => { s with procLock := none }
  | some l => { s with siteLock := update s.siteLock l none }

def At (s : SignalState) (p : ℕ) (pc : SleepPc) : Prop :=
  (s.proc p).pc = pc ∧ (s.proc p).state = .running

/-- Whether the awaited event has come is left open wherever the loop of a wait asks for it. -/
inductive Step : SignalState → SignalAction → SignalState → Prop
  | enter {s p w} (h : s.At p .outside) : Step s (.enter p w) (s.setPc p (.entering w))
  | lockSite {s p w} (h : s.At p (.entering w)) (hl : s.LockFree w) :
      Step s (.lockSite p) ((s.setPc p (.looping w)).takeLock p w)
  | leave {s p w} (h : s.At p (.looping w)) :
      Step s (.leave p) ((s.setPc p .outside).dropLock w)
  | check {s p w} (h : s.At p (.looping w)) (hi : ¬ (s.proc p).Interrupted) :
      Step s (.check p) (s.setPc p (w.wakes.elim (.checked w) (.waking w)))
  | wakeOthers {s p w c} (h : s.At p (.waking w c)) (hl : s.procLock = none) :
      Step s (.wakeOthers p) ((s.setPc p (.checked w)).wakeup c)
  -- `proc_sleep` takes `proc_lock`, unless it is the lock that it was given.
  | lockProc {s p w} (h : s.At p (.checked w)) (hw : w.lock ≠ none) (hl : s.procLock = none) :
      Step s (.lockProc p) { s.setPc p (.locked w) with procLock := some (.proc p) }
  | unlockSite {s p w} (h : s.At p (.locked w)) :
      Step s (.unlockSite p) ((s.setPc p (.committing w)).dropLock w)
  -- The scheduler drops `proc_lock` once the process has left its CPU.
  | block {s p w} (h : s.At p (.committing w) ∨ s.At p (.checked w) ∧ w.lock = none) :
      Step s (.block p)
        { s.setProc p { s.proc p with
            channel := some (w.channel p), state := .blocked, pc := .asleep w } with
          procLock := none }
  | resume {s p w} (h : (s.proc p).pc = .asleep w) (hr : (s.proc p).state = .ready)
      (hl : s.procLock = none) :
      Step s (.resume p)
        { s.setProc p { s.proc p with state := .running, pc := .resumed w } with
          procLock := some (.proc p) }
  | unsleep {s p w} (h : s.At p (.resumed w)) :
      Step s (.unsleep p)
        (match w.lock with
        | none => s.setProc p { s.proc p with channel := none, pc := .looping w }
        | some _ => { s.setProc p { s.proc p with channel := none, pc := .relock w } with
            procLock := none })
  | relock {s p w} (h : s.At p (.relock w)) (hl : s.LockFree w) :
      Step s (.lockSite p) ((s.setPc p (.looping w)).takeLock p w)
  | preempt {s p w} (h : s.At p (.entering w) ∨ s.At p (.relock w)) :
      Step s (.preempt p) (s.setProc p { s.proc p with state := .ready })
  | run {s p w} (h : (s.proc p).pc = .entering w ∨ (s.proc p).pc = .relock w)
      (hr : (s.proc p).state = .ready) :
      Step s (.run p) (s.setProc p { s.proc p with state := .running })
  -- All that a process does outside the waits: fork, exec, exit, its masks and handlers, delivery.
  | elsewhere {s p q} (h : (s.proc p).pc = .outside) (hq : q.pc = .outside) :
      Step s (.elsewhere p q) (s.setProc p q)
  | lockCpu {s c} (hl : s.procLock = none) :
      Step s (.lockCpu c) { s with procLock := some (.cpu c) }
  | send {s c p sig} (hl : s.procLock = some (.cpu c)) :
      Step s (.send c p sig) (s.setProc p ((s.proc p).signalSend sig))
  | wakeup {s c chan} (hl : s.procLock = some (.cpu c)) : Step s (.wakeup c chan) (s.wakeup chan)
  | expire {s c p} (hl : s.procLock = some (.cpu c)) (hc : (s.proc p).channel = some .sleep) :
      Step s (.expire c p) (s.setProc p (s.proc p).wake)
  | unlockCpu {s c} (hl : s.procLock = some (.cpu c)) :
      Step s (.unlockCpu c) { s with procLock := none }

def system : System SignalState SignalAction where
  init s := s.procLock = none ∧ (∀ l, s.siteLock l = none) ∧ ∀ p, (s.proc p).pc = .outside
  step := Step

end SignalState

end MyOS.Proc
