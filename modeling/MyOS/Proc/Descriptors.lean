import MyOS.Fs.Files
import MyOS.Proc.Signal

/-! The descriptor tables of the processes and the calls that fill, copy and empty them, one access
to shared data at a time. -/

namespace MyOS.Proc

open Library Fs Function

def maxFds : ℕ := 64

/-- A slot of `files`. That of an exiting process still points to its file while `file_close` is at
work on it. -/
inductive FdSlot
  | null
  | file (f : ℕ)
  | closing (f : ℕ)
  deriving DecidableEq

def FdSlot.ptr : FdSlot → Option ℕ
  | null => none
  | file f | closing f => some f

/-- What is left to do of the call that a process is in, and the references that it holds itself. -/
inductive FdTask (ι : Type)
  | run
  -- `proc_spawn` after `load_image`
  | spawn
  -- `fd_install(f)`, and `file_close(f)` if the table is full
  | install (f : ℕ)
  -- `sys_pipe` after `pipe_create`, and after `fd_install(r)`
  | installPipe (r w : ℕ)
  | installWriter (rfd : Fin maxFds) (r w : ℕ)
  -- `file_close(f)`, and its end after the last reference
  | close (f : ℕ) (k : FdTask ι)
  | release (f : ℕ) (k : FdTask ι)
  -- the loops of `proc_fork` and `proc_spawn` over the slots of the child
  | fork (c : ι) (fd : ℕ)
  | inherit (c : ι) (fd : ℕ)
  -- the loop of `proc_close_all_files` and `proc_release_resources`
  | closeAll (c : ι) (fd : ℕ)
  | clear (c : ι) (fd : ℕ)

def FdTask.closeOld {ι : Type} : Option ℕ → FdTask ι
  | none => run
  | some f => close f run

structure FdProc (ι : Type) where
  state : ProcState
  isIdle : Bool
  files : Fin maxFds → FdSlot
  task : FdTask ι

structure FdState (ι : Type) where
  files : Files
  proc : ι → FdProc ι

def ProcState.active : ProcState → Bool
  | ready | running | blocked | stopped => true
  | _ => false

def freeFd (files : Fin maxFds → FdSlot) : Option (Fin maxFds) :=
  (List.finRange maxFds).find? fun fd => files fd = .null

namespace FdState

variable {ι : Type} [DecidableEq ι] (s : FdState ι)

def setTask (a : ι) (k : FdTask ι) : FdState ι :=
  { s with proc := update s.proc a { s.proc a with task := k } }

def setSlot (c : ι) (fd : Fin maxFds) (v : FdSlot) : FdState ι :=
  let files := update (s.proc c).files fd v
  { s with proc := update s.proc c { s.proc c with files := files } }

def setState (c : ι) (st : ProcState) : FdState ι :=
  { s with proc := update s.proc c { s.proc c with state := st } }

def procAlloc (c : ι) : FdState ι :=
  { s with proc := update s.proc c ⟨.embryo, false, fun _ => .null, .run⟩ }

def withFiles (t : Files) : FdState ι := { s with files := t }

def At (a : ι) (k : FdTask ι) : Prop := (s.proc a).state = .running ∧ (s.proc a).task = k

/-- Calls that fail before they have a file change nothing. `a` is the process that runs. -/
inductive Step : FdState ι → ι → FdState ι → Prop
  | schedule {s a st} (hs : (s.proc a).state.active = true) (ht : st.active = true) :
      Step s a (s.setState a st)
  -- `vfs_open` of `sys_open`
  | sysOpen {s a f} (h : s.At a .run) (hf : s.files.file f = none) :
      Step s a ((s.withFiles (s.files.alloc f)).setTask a (.install f))
  -- a `vfs_open` that fails after `file_alloc`, a `pipe_create` that gets one file only, and
  -- `vfs_read_whole`, after which `proc_spawn` goes on
  | openClose {s a f k} (h : s.At a .run) (hf : s.files.file f = none) (hk : k = .run ∨ k = .spawn) :
      Step s a ((s.withFiles (s.files.alloc f)).setTask a (.close f k))
  | install {s a f fd} (h : s.At a (.install f)) (hfd : freeFd (s.proc a).files = some fd) :
      Step s a ((s.setSlot a fd (.file f)).setTask a .run)
  | installFull {s a f} (h : s.At a (.install f)) (hfd : freeFd (s.proc a).files = none) :
      Step s a (s.setTask a (.close f .run))
  | sysClose {s a f fd} (h : s.At a .run) (hf : ((s.proc a).files fd).ptr = some f) :
      Step s a ((s.setSlot a fd .null).setTask a (.close f .run))
  | sysDup {s a f fd} (h : s.At a .run) (hf : ((s.proc a).files fd).ptr = some f) :
      Step s a ((s.withFiles (s.files.dup f)).setTask a (.install f))
  | sysDup2 {s a f old new} (h : s.At a .run) (hf : ((s.proc a).files old).ptr = some f)
      (hne : old ≠ new) :
      Step s a (((s.withFiles (s.files.dup f)).setSlot a new (.file f)).setTask a
        (.closeOld ((s.proc a).files new).ptr))
  | sysPipe {s a r w p} (h : s.At a .run) (hr : s.files.file r = none)
      (hw : s.files.file w = none) (hrw : r ≠ w) (hp : s.files.pipe p = none) :
      Step s a ((s.withFiles (s.files.pipeCreate r w p)).setTask a (.installPipe r w))
  | installReader {s a r w fd} (h : s.At a (.installPipe r w))
      (hfd : freeFd (s.proc a).files = some fd) :
      Step s a ((s.setSlot a fd (.file r)).setTask a (.installWriter fd r w))
  | installReaderFull {s a r w} (h : s.At a (.installPipe r w))
      (hfd : freeFd (s.proc a).files = none) :
      Step s a (s.setTask a (.close r (.close w .run)))
  | installWriter {s a rfd r w fd} (h : s.At a (.installWriter rfd r w))
      (hfd : freeFd (s.proc a).files = some fd) :
      Step s a ((s.setSlot a fd (.file w)).setTask a .run)
  | installWriterFull {s a rfd r w} (h : s.At a (.installWriter rfd r w))
      (hfd : freeFd (s.proc a).files = none) :
      Step s a ((s.setSlot a rfd .null).setTask a (.close r (.close w .run)))
  | close {s a f k x} (h : s.At a (.close f k)) (hf : s.files.file f = some x) :
      Step s a ((s.withFiles (s.files.drop f)).setTask a
        (if 0 < x.refcount - 1 then k else .release f k))
  | release {s a f k} (h : s.At a (.release f k)) :
      Step s a ((s.withFiles (s.files.finish f)).setTask a k)
  -- `proc_alloc` that gets no stack
  | allocFails {s a c} (h : s.At a .run ∨ s.At a .spawn) (hc : (s.proc c).state = .unused) :
      Step s a ((s.procAlloc c).setState c .unused)
  | kernelThread {s a c} (h : s.At a .run) (hc : (s.proc c).state = .unused) :
      Step s a ((s.procAlloc c).setState c .ready)
  | fork {s a c} (h : s.At a .run) (hc : (s.proc c).state = .unused) :
      Step s a ((s.procAlloc c).setTask a (.fork c 0))
  -- `mm_fork` fails: `proc_free(child)`
  | forkFails {s a c} (h : s.At a .run) (hc : (s.proc c).state = .unused) :
      Step s a ((s.procAlloc c).setTask a (.closeAll c 0))
  | forkNull {s a c fd} (h : s.At a (.fork c fd)) (hn : fd < maxFds)
      (hf : ((s.proc a).files ⟨fd, hn⟩).ptr = none) :
      Step s a ((s.setSlot c ⟨fd, hn⟩ .null).setTask a (.fork c (fd + 1)))
  | forkDup {s a c fd f} (h : s.At a (.fork c fd)) (hn : fd < maxFds)
      (hf : ((s.proc a).files ⟨fd, hn⟩).ptr = some f) :
      Step s a (((s.withFiles (s.files.dup f)).setSlot c ⟨fd, hn⟩ (.file f)).setTask a
        (.fork c (fd + 1)))
  | forkDone {s a c} (h : s.At a (.fork c maxFds)) :
      Step s a ((s.setState c .ready).setTask a .run)
  | spawnFails {s a} (h : s.At a .spawn) : Step s a (s.setTask a .run)
  | spawn {s a c} (h : s.At a .spawn) (hc : (s.proc c).state = .unused) :
      Step s a ((s.procAlloc c).setTask a (.inherit c 0))
  | inheritDup {s a c fd f} (h : s.At a (.inherit c fd)) (hn : fd < 3)
      (hi : (s.proc a).isIdle = false)
      (hf : ((s.proc a).files ⟨fd, hn.trans (by decide)⟩).ptr = some f) :
      Step s a (((s.withFiles (s.files.dup f)).setSlot c ⟨fd, hn.trans (by decide)⟩
        (.file f)).setTask a (.inherit c (fd + 1)))
  -- `vfs_open("/dev/console")`, which may fail before or after `file_alloc`
  | inheritConsole {s a c fd f} (h : s.At a (.inherit c fd)) (hn : fd < 3)
      (hi : (s.proc a).isIdle = true ∨
        ((s.proc a).files ⟨fd, hn.trans (by decide)⟩).ptr = none)
      (hf : s.files.file f = none) :
      Step s a (((s.withFiles (s.files.alloc f)).setSlot c ⟨fd, hn.trans (by decide)⟩
        (.file f)).setTask a (.inherit c (fd + 1)))
  | inheritNone {s a c fd} (h : s.At a (.inherit c fd)) (hn : fd < 3)
      (hi : (s.proc a).isIdle = true ∨
        ((s.proc a).files ⟨fd, hn.trans (by decide)⟩).ptr = none) :
      Step s a (s.setTask a (.inherit c (fd + 1)))
  | inheritFails {s a c fd f} (h : s.At a (.inherit c fd)) (hn : fd < 3)
      (hi : (s.proc a).isIdle = true ∨
        ((s.proc a).files ⟨fd, hn.trans (by decide)⟩).ptr = none)
      (hf : s.files.file f = none) :
      Step s a ((s.withFiles (s.files.alloc f)).setTask a (.close f (.inherit c (fd + 1))))
  | inheritDone {s a c} (h : s.At a (.inherit c 3)) :
      Step s a ((s.setState c .ready).setTask a .run)
  | exit {s a} (h : s.At a .run) (hi : (s.proc a).isIdle = false) :
      Step s a (s.setTask a (.closeAll a 0))
  -- `proc_wait` and `reap_orphans`
  | reap {s a c} (h : s.At a .run) (hc : (s.proc c).state = .zombie) :
      Step s a ((s.setState c .dead).setTask a (.closeAll c 0))
  | closeNull {s a c fd} (h : s.At a (.closeAll c fd)) (hn : fd < maxFds)
      (hf : ((s.proc c).files ⟨fd, hn⟩).ptr = none) :
      Step s a (s.setTask a (.closeAll c (fd + 1)))
  | closeSlot {s a c fd f} (h : s.At a (.closeAll c fd)) (hn : fd < maxFds)
      (hf : ((s.proc c).files ⟨fd, hn⟩).ptr = some f) :
      Step s a ((s.setSlot c ⟨fd, hn⟩ (.closing f)).setTask a (.close f (.clear c fd)))
  | clear {s a c fd} (h : s.At a (.clear c fd)) (hn : fd < maxFds) :
      Step s a ((s.setSlot c ⟨fd, hn⟩ .null).setTask a (.closeAll c (fd + 1)))
  -- the end of `do_exit` and that of `proc_free`
  | closeDone {s a c} (h : s.At a (.closeAll c maxFds)) :
      Step s a ((s.setState c (if c = a then .zombie else .unused)).setTask a .run)

def Initial : Prop :=
  (∀ f, s.files.file f = none) ∧ (∀ p, s.files.pipe p = none) ∧
    ∀ a, (s.proc a).files = (fun _ => .null) ∧ (s.proc a).task = .run ∧
      (s.proc a).state = if (s.proc a).isIdle then .running else .unused

def system (ι : Type) [DecidableEq ι] : System (FdState ι) ι where
  init := Initial
  step := Step

end FdState

end MyOS.Proc
