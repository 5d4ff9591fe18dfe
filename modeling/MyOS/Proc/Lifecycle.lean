import MyOS.Library.Ledger
import MyOS.Proc.Descriptors
import MyOS.Proc.Groups

/-! The life of a process, from `proc_alloc` to `proc_free`, on any number of CPUs. A critical section of
`proc_lock` is a step, unless it ends in `sched` or begins in `scheduler_loop`: those leave the lock to
the other side of `context_switch`. -/

namespace MyOS.Proc

open Library Function

instance : NeZero maxFds := ⟨by decide⟩

inductive Ctx (C : Type)
  | proc (p : Slot)
  | idle (c : C)
  deriving DecidableEq

/-- What a slot of `procs` can own: the fields `files`, `cwd`, `kstack_base` and `mm`, and two local
variables, the old `mm` of `do_exit` and `proc_exec` and the image that `load_image` made. -/
inductive Res
  | file (fd : Fin maxFds)
  | cwd
  | kstack
  | mm
  | old
  | img
  deriving DecidableEq

def files : List Res := (List.finRange maxFds).map .file

def releaseOrder : List Res := files ++ [.cwd, .kstack, .mm]

def exitOrder : List Res := files ++ [.cwd]

inductive Creation
  | fork
  | spawn
  | kthread
  deriving DecidableEq

/-- Where `proc_free` returns to: its caller's end, or `reap_orphans` at the next slot. -/
inductive FreeBack
  | done
  | reap (i : ℕ)

/-- Where a thread is. `load` to `ready`: it makes a process, whose slot is `q` from `stack` on; `free`: in
`proc_free(q)`, with the fields that are left; `exit` to `gone`: in `do_exit`; `shed`: in `proc_exec`, with
the old `mm`. -/
inductive LifePc
  | user
  | load
  | abandon
  | stack (q : Slot) (k : Creation)
  | undo (q : Slot) (k : Creation)
  | cwd (q : Slot) (k : Creation)
  | fork (q : Slot)
  | image (q : Slot)
  | dup (q : Slot) (l : List (Fin maxFds))
  | console (q : Slot) (l : List (Fin maxFds))
  | ready (q : Slot)
  | free (q : Slot) (l : List Res) (b : FreeBack)
  | reap (i : ℕ)
  | wait (pid : ℤ) (untraced nohang : Bool)
  | exit (l : List Res) (status : ℕ)
  | destroy (status : ℕ)
  | zombify (status : ℕ)
  | gone
  | shed

/-- The stack that a CPU runs on. It holds `proc_lock` in `back`, after the switch to its scheduler, in
`into`, before the switch to a process, in `enter`, after it, and in `leave`, before the switch away. -/
inductive CpuPc
  | sched
  | back
  | into (p : Slot)
  | enter (p : Slot)
  | run (p : Slot)
  | leave (p : Slot)

inductive LifeChan (C : Type)
  | of (x : Ctx C)
  | other (n : ℕ)
  deriving DecidableEq

structure LifeProc (C : Type) where
  state : ProcState := .unused
  pid : ℕ := 0
  pgid : ℤ := 0
  parent : Option (Ctx C) := none
  chan : Option (LifeChan C) := none
  killed : Bool := false
  stopSig : ℕ := 0
  stopReported : Bool := false
  exitStatus : ℕ := 0
  ppid : Option ℕ := none

/-- A zombie that was marked `PROC_DEAD`: its number, its creator's, and that of the process whose
`proc_wait` it was, or none for `reap_orphans`. -/
structure Reaped where
  pid : ℕ
  ppid : Option ℕ
  waiter : Option ℕ

structure Life (C : Type) where
  procs : Slot → LifeProc C
  nextPid : ℕ
  rrNext : Slot
  lock : Option C
  cpu : C → CpuPc
  pc : Ctx C → LifePc
  res : Ledger (Slot × Res)
  reaped : List Reaped

namespace Life

variable {C : Type} [DecidableEq C]

def initial : Life C where
  procs := fun _ => {}
  nextPid := 1
  rrNext := 0
  lock := none
  cpu := fun _ => .sched
  pc := fun _ => .user
  res := {}
  reaped := []

variable (s : Life C)

def setProc (q : Slot) (p : LifeProc C) : Life C :=
  { s with procs := update s.procs q p }

def setState (q : Slot) (st : ProcState) : Life C := s.setProc q { s.procs q with state := st }

def setPc (x : Ctx C) (pc : LifePc) : Life C := { s with pc := update s.pc x pc }

def setCpu (c : C) (lock : Option C) (pc : CpuPc) : Life C :=
  { s with lock := lock, cpu := update s.cpu c pc }

def Acts (c : C) (x : Ctx C) : Prop :=
  (∃ p, s.cpu c = .run p ∧ x = .proc p) ∨ s.cpu c = .sched ∧ x = .idle c

def pickNext : Option Slot :=
  ((List.finRange maxProcs).map fun n => s.rrNext + n).find? fun i => (s.procs i).state = .ready

def firstUnused : Option Slot := (List.finRange maxProcs).find? fun i => (s.procs i).state = .unused

def alloc (x : Ctx C) (q : Slot) (k : Creation) : Life C :=
  { s with
    procs := update s.procs q
      { state := .embryo
        pid := s.nextPid
        parent := some x
        pgid := match x with
          | .proc p => (s.procs p).pgid
          | .idle _ => 0
        ppid := match x with
          | .proc p => some (s.procs p).pid
          | .idle _ => none }
    nextPid := s.nextPid + 1
    pc := update (update s.pc (.proc q) .user) x (.stack q k) }

def failed : Creation → LifePc
  | .spawn => .abandon
  | _ => .user

def built (q : Slot) : Creation → LifePc
  | .fork => .fork q
  | .spawn => .image q
  | .kthread => .ready q

def back : FreeBack → LifePc
  | .done => .user
  | .reap i => .reap i

def wakeup (ch : LifeChan C) : Life C :=
  { s with procs := fun i =>
      let p := s.procs i
      if p.state = .blocked ∧ p.chan = some ch then { p with state := .ready } else p }

def signal (x : Ctx C) (wake : Bool) : Life C :=
  match x with
  | .proc q => if wake ∧ (s.procs q).state = .blocked then s.setState q .ready else s
  | .idle _ => s

def tellParent (p : Slot) (wake : Bool) : Life C :=
  match (s.procs p).parent with
  | none => s
  | some x => (s.wakeup (.of x)).signal x wake

def orphan (me : Slot) : Life C :=
  { s with procs := fun i =>
      let p := s.procs i
      if p.state ≠ .unused ∧ p.parent = some (.proc me) then { p with parent := none } else p }

def zombify (c : C) (me : Slot) (status : ℕ) (wake : Bool) : Life C :=
  let s := s.setProc me { s.procs me with exitStatus := status }
  let s := s.orphan me
  let s := (s.setState me .zombie).tellParent me wake
  (s.setPc (.proc me) .gone).setCpu c (some c) (.leave me)

def stop (c : C) (me : Slot) (sig : ℕ) (wake : Bool) : Life C :=
  if (s.procs me).killed then s
  else
    let s := s.setProc me { s.procs me with state := .stopped, stopSig := sig, stopReported := false }
    (s.tellParent me wake).setCpu c (some c) (.leave me)

def WaitMatches (me : Slot) (pid : ℤ) (p : LifeProc C) : Prop :=
  if 0 < pid then (p.pid : ℤ) = pid
  else if pid = -1 then True
  else if pid = 0 then p.pgid = (s.procs me).pgid
  else p.pgid = -pid

instance (me : Slot) (pid : ℤ) (p : LifeProc C) : Decidable (s.WaitMatches me pid p) := by
  unfold WaitMatches
  infer_instance

def Awaited (me : Slot) (pid : ℤ) (i : Slot) : Prop :=
  (s.procs i).state ≠ .unused ∧ (s.procs i).parent = some (.proc me) ∧
    s.WaitMatches me pid (s.procs i)

instance (me : Slot) (pid : ℤ) (i : Slot) : Decidable (s.Awaited me pid i) := by
  unfold Awaited
  infer_instance

def waitScan (me : Slot) (pid : ℤ) (untraced : Bool) : Option Slot :=
  (List.finRange maxProcs).find? fun i => s.Awaited me pid i ∧ ((s.procs i).state = .zombie ∨
    (s.procs i).state = .stopped ∧ untraced = true ∧ (s.procs i).stopReported = false)

def markDead (q : Slot) (waiter : Option ℕ) : Life C :=
  { s.setState q .dead with
    reaped := { pid := (s.procs q).pid, ppid := (s.procs q).ppid, waiter := waiter } :: s.reaped }

/-- A round of the loop of `proc_wait`, with `proc_lock` held; `sig` is `signal_interrupted`. -/
def waitRound (c : C) (me : Slot) (pid : ℤ) (untraced nohang sig : Bool) : Life C :=
  match s.waitScan me pid untraced with
  | some q =>
    if (s.procs q).state = .zombie then
      ((s.markDead q (some (s.procs me).pid)).setPc (.proc me) (.free q releaseOrder .done)).setCpu c none
        (.run me)
    else ((s.setProc q { s.procs q with stopReported := true }).setPc (.proc me) .user).setCpu c none
      (.run me)
  | none =>
    if ¬ (∃ i, s.Awaited me pid i) ∨ nohang = true ∨ sig = true then
      (s.setPc (.proc me) .user).setCpu c none (.run me)
    else
      ((s.setProc me { s.procs me with state := .blocked, chan := some (.of (.proc me)) }).setPc (.proc me)
        (.wait pid untraced nohang)).setCpu c (some c) (.leave me)

def reapRound (c : C) (i : Slot) : Life C :=
  if (s.procs i).state = .zombie ∧ (s.procs i).parent = none then
    (s.markDead i none).setPc (.idle c) (.free i releaseOrder (.reap (i + 1)))
  else s.setPc (.idle c) (.reap (i + 1))

end Life

inductive LifeMove {C : Type} (l : Ledger (Slot × Res)) :
    Ctx C → LifePc → LifePc → Ledger (Slot × Res) → Prop
  | load {p : Slot} : LifeMove l (.proc p) .user .load (l.acquire (p, .img))
  | abandon {p : Slot} : LifeMove l (.proc p) .abandon .user (l.release (p, .img))
  | stack {x : Ctx C} {q : Slot} {k : Creation} :
      LifeMove l x (.stack q k) (.cwd q k) (l.acquire (q, .kstack))
  | noStack {x : Ctx C} {q : Slot} {k : Creation} : LifeMove l x (.stack q k) (.undo q k) l
  | cwd {x : Ctx C} {q : Slot} {k : Creation} :
      LifeMove l x (.cwd q k) (Life.built q k) (l.acquire (q, .cwd))
  | fork {x : Ctx C} {q : Slot} :
      LifeMove l x (.fork q) (.dup q (List.finRange maxFds)) (l.acquire (q, .mm))
  | noFork {x : Ctx C} {q : Slot} : LifeMove l x (.fork q) (.free q releaseOrder .done) l
  | image {p q : Slot} : LifeMove l (.proc p) (.image q) (.console q [0, 1, 2]) (l.move (p, .img) (q, .mm))
  | dup {p q : Slot} {fd : Fin maxFds} {fds : List (Fin maxFds)} :
      LifeMove l (.proc p) (.dup q (fd :: fds)) (.dup q fds)
        (if (l.held (p, .file fd)).isSome then l.acquire (q, .file fd) else l)
  | dupped {x : Ctx C} {q : Slot} : LifeMove l x (.dup q []) (.ready q) l
  | console {p q : Slot} {fd : Fin maxFds} {fds : List (Fin maxFds)} (opened : Bool) :
      LifeMove l (.proc p) (.console q (fd :: fds)) (.console q fds)
        (if (l.held (p, .file fd)).isSome ∨ opened = true then l.acquire (q, .file fd) else l)
  | consoled {x : Ctx C} {q : Slot} : LifeMove l x (.console q []) (.ready q) l
  | release {x : Ctx C} {q : Slot} {f : Res} {fs : List Res} {b : FreeBack} :
      LifeMove l x (.free q (f :: fs) b) (.free q fs b) (l.release (q, f))
  | startExit {p : Slot} (status : ℕ) : LifeMove l (.proc p) .user (.exit exitOrder status) l
  | exit {p : Slot} {f : Res} {fs : List Res} {status : ℕ} :
      LifeMove l (.proc p) (.exit (f :: fs) status) (.exit fs status) (l.release (p, f))
  | noMm {p : Slot} {status : ℕ} (h : l.held (p, .mm) = none) :
      LifeMove l (.proc p) (.exit [] status) (.zombify status) l
  | destroy {p : Slot} {status : ℕ} :
      LifeMove l (.proc p) (.destroy status) (.zombify status) (l.release (p, .old))
  | shed {p : Slot} : LifeMove l (.proc p) .shed .user (l.release (p, .old))
  | openFile {p : Slot} {fd : Fin maxFds} (h : l.held (p, .file fd) = none) :
      LifeMove l (.proc p) .user .user (l.acquire (p, .file fd))
  | closeFile {p : Slot} {fd : Fin maxFds} : LifeMove l (.proc p) .user .user (l.release (p, .file fd))
  | chdir {p : Slot} :
      LifeMove l (.proc p) .user .user ((l.release (p, .cwd)).acquire (p, .cwd))

namespace Life

variable {C : Type} [DecidableEq C]

inductive Step (boot : C) : Life C → C → Life C → Prop
  | move {s : Life C} {c : C} {x : Ctx C} {pc : LifePc} {l : Ledger (Slot × Res)} (hx : s.Acts c x)
      (hm : LifeMove s.res x (s.pc x) pc l) : Step boot s c { s.setPc x pc with res := l }
  | pick {s : Life C} {c : C} {p : Slot} (hc : s.cpu c = .sched) (hu : s.pc (.idle c) = .user)
      (hl : s.lock = none) (hp : s.pickNext = some p) :
      Step boot s c ({ s.setState p .running with rrNext := p + 1 }.setCpu c (some c) (.into p))
  | noneReady {s : Life C} (hc : s.cpu boot = .sched) (hu : s.pc (.idle boot) = .user)
      (hl : s.lock = none) (hp : s.pickNext = none) : Step boot s boot (s.setPc (.idle boot) (.reap 0))
  | switchIn {s : Life C} {c : C} {p : Slot} (hc : s.cpu c = .into p) :
      Step boot s c (s.setCpu c (some c) (.enter p))
  | resume {s : Life C} {c : C} {p : Slot} (hc : s.cpu c = .enter p)
      (hw : ∀ pid u n, s.pc (.proc p) ≠ .wait pid u n) :
      Step boot s c ((s.setProc p { s.procs p with chan := none }).setCpu c none (.run p))
  | switchOut {s : Life C} {c : C} {p : Slot} (hc : s.cpu c = .leave p) :
      Step boot s c (s.setCpu c (some c) .back)
  | unlock {s : Life C} {c : C} (hc : s.cpu c = .back) : Step boot s c (s.setCpu c none .sched)
  | yield {s : Life C} {c : C} {p : Slot} (hc : s.cpu c = .run p) (hl : s.lock = none) :
      Step boot s c ((s.setState p .ready).setCpu c (some c) (.leave p))
  | sleep {s : Life C} {c : C} {p : Slot} {n : ℕ} (hc : s.cpu c = .run p) (hl : s.lock = none) :
      Step boot s c ((s.setProc p { s.procs p with state := .blocked, chan := some (.other n) }).setCpu c
        (some c) (.leave p))
  | stop {s : Life C} {c : C} {p : Slot} {sig : ℕ} {wake : Bool} (hc : s.cpu c = .run p)
      (hu : s.pc (.proc p) = .user) (hl : s.lock = none) : Step boot s c (s.stop c p sig wake)
  | wake {s : Life C} {c : C} {q : Slot} (hl : s.lock = none)
      (hq : (s.procs q).state = .blocked ∨ (s.procs q).state = .stopped) :
      Step boot s c (s.setState q .ready)
  | kill {s : Life C} {c : C} {q : Slot} (hl : s.lock = none) :
      Step boot s c (s.setProc q { s.procs q with killed := true })
  | setPgid {s : Life C} {c : C} {q : Slot} {g : ℤ} (hl : s.lock = none) :
      Step boot s c (s.setProc q { s.procs q with pgid := g })
  | alloc {s : Life C} {c : C} {x : Ctx C} {q : Slot} {k : Creation} (hx : s.Acts c x)
      (hk : s.pc x = .user ∧ k = .kthread ∨ (∃ p, x = .proc p) ∧ s.pc x = .user ∧ k = .fork ∨
        s.pc x = .load ∧ k = .spawn)
      (hl : s.lock = none) (hq : s.firstUnused = some q) : Step boot s c (s.alloc x q k)
  | noSlot {s : Life C} {c : C} {x : Ctx C} (hx : s.Acts c x) (hk : s.pc x = .load) (hl : s.lock = none)
      (hq : s.firstUnused = none) : Step boot s c (s.setPc x .abandon)
  | undo {s : Life C} {c : C} {x : Ctx C} {q : Slot} {k : Creation} (hx : s.Acts c x)
      (hk : s.pc x = .undo q k) (hl : s.lock = none) :
      Step boot s c ((s.setState q .unused).setPc x (failed k))
  | makeReady {s : Life C} {c : C} {x : Ctx C} {q : Slot} (hx : s.Acts c x) (hk : s.pc x = .ready q)
      (hl : s.lock = none) : Step boot s c ((s.setState q .ready).setPc x .user)
  | wait {s : Life C} {c : C} {p : Slot} {pid : ℤ} {untraced nohang sig : Bool} (hc : s.cpu c = .run p)
      (hu : s.pc (.proc p) = .user) (hl : s.lock = none) :
      Step boot s c (s.waitRound c p pid untraced nohang sig)
  | waitAgain {s : Life C} {c : C} {p : Slot} {pid : ℤ} {untraced nohang sig : Bool}
      (hc : s.cpu c = .enter p) (hw : s.pc (.proc p) = .wait pid untraced nohang) :
      Step boot s c ((s.setProc p { s.procs p with chan := none }).waitRound c p pid untraced nohang sig)
  | reap {s : Life C} {c : C} {i : Slot} (hc : s.cpu c = .sched) (hk : s.pc (.idle c) = .reap i)
      (hl : s.lock = none) : Step boot s c (s.reapRound c i)
  | reaped {s : Life C} {c : C} {i : ℕ} (hc : s.cpu c = .sched) (hk : s.pc (.idle c) = .reap i)
      (hi : maxProcs ≤ i) : Step boot s c (s.setPc (.idle c) .user)
  | freed {s : Life C} {c : C} {x : Ctx C} {q : Slot} {b : FreeBack} (hx : s.Acts c x)
      (hk : s.pc x = .free q [] b) (hl : s.lock = none) :
      Step boot s c ((s.setState q .unused).setPc x (back b))
  | swap {s : Life C} {c : C} {p : Slot} {status : ℕ} (hc : s.cpu c = .run p)
      (hk : s.pc (.proc p) = .exit [] status) (hm : s.res.held (p, .mm) ≠ none) (hl : s.lock = none) :
      Step boot s c { s.setPc (.proc p) (.destroy status) with res := s.res.move (p, .mm) (p, .old) }
  | exec {s : Life C} {c : C} {p : Slot} (hc : s.cpu c = .run p) (hk : s.pc (.proc p) = .load)
      (hl : s.lock = none) :
      Step boot s c { s.setPc (.proc p) .shed with
        res := (s.res.move (p, .mm) (p, .old)).move (p, .img) (p, .mm) }
  | zombify {s : Life C} {c : C} {p : Slot} {status : ℕ} {wake : Bool} (hc : s.cpu c = .run p)
      (hk : s.pc (.proc p) = .zombify status) (hl : s.lock = none) :
      Step boot s c (s.zombify c p status wake)

def system (boot : C) : System (Life C) C where
  init s := s = initial
  step := Step boot

end Life

end MyOS.Proc
