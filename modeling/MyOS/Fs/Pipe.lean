import MyOS.Library.RingBuffer
import MyOS.Library.System

/-! Pipes: a ring buffer between processes that read, write and close its ends in any order. -/

namespace MyOS.Fs

open Library

def pipeSize : ℕ := 16384

structure Pipe where
  ring : RingBuffer UInt8
  readers : ℕ
  writers : ℕ

inductive PipeChannel
  | count
  | writers
  deriving DecidableEq

/-- The pipe call that a process is in, with the local variables that outlive a sleep. -/
inductive PipeCall
  | idle
  | read (len : ℕ)
  | write (src : List UInt8) (done : ℕ)

structure PipeProc where
  call : PipeCall := .idle
  asleep : Option PipeChannel := none
  moved : ℕ := 0

inductive PipeRet
  | bytes (n : ℕ)
  | eintr
  | epipe
  deriving DecidableEq

/-- A finished call: its request and result, and the pipe when the result was settled. -/
structure PipeResult where
  reads : Bool
  len : ℕ
  ret : PipeRet
  sigpipe : Bool
  moved : ℕ
  count : ℕ
  readers : ℕ
  writers : ℕ

structure PipeState where
  pipe : Pipe
  proc : ℕ → PipeProc := fun _ => {}
  input : List UInt8 := []
  output : List UInt8 := []
  results : List PipeResult := []

namespace PipeState

def setProc (s : PipeState) (t : ℕ) (f : PipeProc → PipeProc) : PipeState :=
  { s with proc := Function.update s.proc t (f (s.proc t)) }

def wakeup (s : PipeState) (c : PipeChannel) : PipeState :=
  { s with proc := fun t =>
      if (s.proc t).asleep = some c then { s.proc t with asleep := none } else s.proc t }

/-- `proc_sleep` leaves the critical section; a woken process starts again at the loop's test. -/
def sleep (s : PipeState) (t : ℕ) (c : PipeChannel) : PipeState :=
  s.setProc t fun p => { p with asleep := some c }

def finish (s : PipeState) (t len : ℕ) (reads : Bool) (ret : PipeRet) : PipeState :=
  { s.setProc t fun p => { p with call := .idle } with
    results := { reads := reads, len := len, ret := ret, sigpipe := ret = .epipe,
                 moved := (s.proc t).moved, count := s.pipe.ring.count,
                 readers := s.pipe.readers, writers := s.pipe.writers } :: s.results }

def copyOut (s : PipeState) (t n : ℕ) : PipeState :=
  { s.setProc t fun p => { p with moved := p.moved + n } with
    pipe := { s.pipe with ring := s.pipe.ring.pop pipeSize n }
    output := s.output ++ s.pipe.ring.front pipeSize n }

def copyIn (s : PipeState) (t : ℕ) (src : List UInt8) (done n : ℕ) : PipeState :=
  { s.setProc t fun p => { p with call := .write src (done + n), moved := p.moved + n } with
    pipe := { s.pipe with ring := s.pipe.ring.push pipeSize ((src.drop done).take n) }
    input := s.input ++ (src.drop done).take n }

def pipeRead (s : PipeState) (t len : ℕ) (interrupted : Bool) : PipeState :=
  if len = 0 then s.finish t len true (.bytes 0)
  else if s.pipe.ring.count = 0 then
    if s.pipe.writers = 0 then s.finish t len true (.bytes 0)
    else if interrupted then s.finish t len true .eintr
    else s.sleep t .count
  else
    let n := min len s.pipe.ring.count
    ((s.copyOut t n).wakeup .writers).finish t len true (.bytes n)

/-- The loop of `pipe_write` up to the return or to a sleep. Every round but the last copies a byte
at least, so one round more than there are bytes left is enough. -/
def pipeWrite : ℕ → PipeState → ℕ → List UInt8 → ℕ → Bool → PipeState
  | 0, s, _, _, _, _ => s
  | fuel + 1, s, t, src, done, interrupted =>
    if src.length ≤ done then s.finish t src.length false (.bytes done)
    else if s.pipe.readers = 0 then
      s.finish t src.length false (if done = 0 then .epipe else .bytes done)
    else if s.pipe.ring.count = pipeSize then
      if interrupted then s.finish t src.length false (if done = 0 then .eintr else .bytes done)
      else (s.wakeup .count).sleep t .writers
    else
      let n := min (src.length - done) (pipeSize - s.pipe.ring.count)
      pipeWrite fuel ((s.copyIn t src done n).wakeup .count) t src (done + n) interrupted

def pipeRelease (s : PipeState) (readers writers : ℕ) : PipeState :=
  ({ s with pipe := { s.pipe with readers := readers, writers := writers } }.wakeup
    .count).wakeup .writers

end PipeState

inductive PipeAction
  | startRead (t len : ℕ)
  | startWrite (t : ℕ) (src : List UInt8)
  | run (t : ℕ) (interrupted : Bool)
  | signal (t : ℕ)
  | closeReader
  | closeWriter

/-- `interrupted` is what `signal_interrupted` says if it is asked. The memory of a pipe without
open ends is freed, so nothing runs on it any more. -/
def PipeState.step (s : PipeState) : PipeAction → Option PipeState
  | .startRead t len =>
    match (s.proc t).call with
    | .idle => if s.pipe.readers = 0 then none else
        some (s.setProc t fun _ => { call := .read len })
    | _ => none
  | .startWrite t src =>
    match (s.proc t).call with
    | .idle => if s.pipe.writers = 0 then none else
        some (s.setProc t fun _ => { call := .write src 0 })
    | _ => none
  | .run t interrupted =>
    if (s.proc t).asleep.isSome ∨ (s.pipe.readers = 0 ∧ s.pipe.writers = 0) then none
    else match (s.proc t).call with
      | .idle => none
      | .read len => some (s.pipeRead t len interrupted)
      | .write src done => some (s.pipeWrite (src.length - done + 1) t src done interrupted)
  | .signal t => some (s.setProc t fun p => { p with asleep := none })
  | .closeReader =>
    if s.pipe.readers = 0 then none
    else some (s.pipeRelease (s.pipe.readers - 1) s.pipe.writers)
  | .closeWriter =>
    if s.pipe.writers = 0 then none
    else some (s.pipeRelease s.pipe.readers (s.pipe.writers - 1))

def pipeCreate (buf : ℕ → UInt8) : PipeState where
  pipe := { ring := { buf := buf, head := 0, count := 0 }, readers := 1, writers := 1 }

def pipeSystem (buf : ℕ → UInt8) : System PipeState PipeAction where
  init s := s = pipeCreate buf
  step s a t := s.step a = some t

end MyOS.Fs

/-! Whatever is read, written, closed and interrupted, a pipe is a queue. -/

namespace MyOS.Fs

open Library

structure PipeResult.Honest (r : PipeResult) : Prop where
  bytes : ∀ n, r.ret = .bytes n → n = r.moved
  interrupted : r.ret = .eintr → r.moved = 0
  endOfFile : r.reads = true → 0 < r.len → r.ret = .bytes 0 → r.count = 0 ∧ r.writers = 0
  broken : r.ret = .epipe ∨ r.sigpipe = true → r.readers = 0

structure Fifo (s : PipeState) : Prop where
  order : s.input = s.output ++ s.pipe.ring.contents pipeSize
  bound : s.pipe.ring.count ≤ pipeSize
  results : ∀ r ∈ s.results, r.Honest

def PipeProc.Counts (p : PipeProc) : Prop :=
  match p.call with
  | .idle => True
  | .read _ => p.moved = 0
  | .write _ done => p.moved = done

structure PipeInv (s : PipeState) : Prop where
  fifo : Fifo s
  counts : ∀ t, (s.proc t).Counts

section Steps

variable {s : PipeState} {t : ℕ}

structure SameCalls (s s' : PipeState) : Prop where
  pipe : s'.pipe = s.pipe
  input : s'.input = s.input
  output : s'.output = s.output
  results : s'.results = s.results
  proc : ∀ t, (s'.proc t).call = (s.proc t).call ∧ (s'.proc t).moved = (s.proc t).moved

lemma SameCalls.inv {s' : PipeState} (h : SameCalls s s') (hs : PipeInv s) : PipeInv s' where
  fifo := by
    refine ⟨?_, ?_, ?_⟩
    · rw [h.input, h.output, h.pipe]
      exact hs.fifo.order
    · rw [h.pipe]
      exact hs.fifo.bound
    · rw [h.results]
      exact hs.fifo.results
  counts t := by
    rw [PipeProc.Counts, (h.proc t).1, (h.proc t).2]
    exact hs.counts t

lemma sameCalls_asleep (f : PipeProc → PipeProc)
    (hf : ∀ p, (f p).call = p.call ∧ (f p).moved = p.moved) : SameCalls s (s.setProc t f) := by
  refine ⟨rfl, rfl, rfl, rfl, fun u => ?_⟩
  by_cases hu : u = t
  · subst hu
    simpa [PipeState.setProc] using hf (s.proc u)
  · simp [PipeState.setProc, hu]

lemma sameCalls_wakeup (c : PipeChannel) : SameCalls s (s.wakeup c) := by
  refine ⟨rfl, rfl, rfl, rfl, fun u => ?_⟩
  simp only [PipeState.wakeup]
  split <;> exact ⟨rfl, rfl⟩

lemma PipeInv.finish {len : ℕ} {reads : Bool} {ret : PipeRet} (hs : PipeInv s)
    (h₁ : ∀ n, ret = .bytes n → n = (s.proc t).moved) (h₂ : ret = .eintr → (s.proc t).moved = 0)
    (h₃ : reads = true → 0 < len → ret = .bytes 0 → s.pipe.ring.count = 0 ∧ s.pipe.writers = 0)
    (h₄ : ret = .epipe → s.pipe.readers = 0) : PipeInv (s.finish t len reads ret) where
  fifo := by
    refine ⟨hs.fifo.order, hs.fifo.bound, fun r hr => ?_⟩
    rcases List.mem_cons.1 hr with rfl | hr
    · exact ⟨h₁, h₂, h₃, fun h => h₄ (h.elim id of_decide_eq_true)⟩
    · exact hs.fifo.results r hr
  counts u := by
    by_cases hu : u = t
    · subst hu
      simp [PipeState.finish, PipeState.setProc, PipeProc.Counts]
    · simpa [PipeState.finish, PipeState.setProc, hu] using hs.counts u

lemma PipeInv.setCall {p : PipeProc} (hs : PipeInv s) (hp : p.Counts) :
    PipeInv (s.setProc t fun _ => p) where
  fifo := ⟨hs.fifo.order, hs.fifo.bound, hs.fifo.results⟩
  counts u := by
    by_cases hu : u = t
    · subst hu
      simpa [PipeState.setProc] using hp
    · simpa [PipeState.setProc, hu] using hs.counts u

lemma PipeInv.pipeRead {len : ℕ} {interrupted : Bool} (hs : PipeInv s)
    (hc : (s.proc t).call = .read len) : PipeInv (s.pipeRead t len interrupted) := by
  have hmoved : (s.proc t).moved = 0 := by
    have := hs.counts t
    rwa [PipeProc.Counts, hc] at this
  rw [PipeState.pipeRead]
  split
  · exact hs.finish (by simp [hmoved]) (by simp) (by omega) (by simp)
  rename_i hlen
  split
  · rename_i hempty
    split
    · rename_i hw
      exact hs.finish (by simp [hmoved]) (by simp) (fun _ _ _ => ⟨hempty, hw⟩) (by simp)
    · split
      · exact hs.finish (by simp) (fun _ => hmoved) (by simp) (by simp)
      · exact (sameCalls_asleep (fun p => { p with asleep := some .count })
          fun _ => ⟨rfl, rfl⟩).inv hs
  · rename_i hne
    simp only
    -- the bytes that leave the ring are the next ones of the output
    let n := min len s.pipe.ring.count
    have hn : n ≤ s.pipe.ring.count := min_le_right _ _
    let u := (s.copyOut t n).wakeup .writers
    have hwake : SameCalls (s.copyOut t n) u := sameCalls_wakeup .writers
    have hself : (u.proc t).moved = n := by
      rw [(hwake.proc t).2]
      simp [PipeState.copyOut, PipeState.setProc, hmoved]
    have hfifo : Fifo u := by
      refine ⟨?_, (Nat.sub_le _ _).trans hs.fifo.bound, hs.fifo.results⟩
      have hcut : s.pipe.ring.front pipeSize n ++ (s.pipe.ring.pop pipeSize n).contents pipeSize =
          s.pipe.ring.contents pipeSize := RingBuffer.front_append_pop hn
      calc u.input = s.output ++ s.pipe.ring.contents pipeSize := hs.fifo.order
        _ = u.output ++ u.pipe.ring.contents pipeSize := by
          rw [← hcut, ← List.append_assoc]
          rfl
    have hresult : ∀ r ∈ (u.finish t len true (.bytes n)).results, r.Honest := by
      intro r hr
      rcases List.mem_cons.1 hr with rfl | hr
      · refine ⟨fun k hk => ?_, by simp, fun _ _ hk => ?_, by simp⟩
        · rw [show k = n from (PipeRet.bytes.inj hk).symm]
          exact hself.symm
        · have := PipeRet.bytes.inj hk
          omega
      · exact hfifo.results r hr
    refine ⟨⟨hfifo.order, hfifo.bound, hresult⟩, fun v => ?_⟩
    by_cases hv : v = t
    · subst hv
      simp [PipeState.finish, PipeState.setProc, PipeProc.Counts]
    · have hsame := hwake.proc v
      have hold := hs.counts v
      have hcopy : (s.copyOut t n).proc v = s.proc v := by
        simp [PipeState.copyOut, PipeState.setProc, hv]
      have hfin : (u.finish t len true (.bytes n)).proc v = u.proc v := by
        simp [PipeState.finish, PipeState.setProc, hv]
      rw [hcopy] at hsame
      have : PipeProc.Counts (u.proc v) := by
        rw [PipeProc.Counts, hsame.1, hsame.2]
        exact hold
      exact hfin ▸ this

lemma PipeInv.copyIn {done n : ℕ} (src : List UInt8) (hs : PipeInv s)
    (hmoved : (s.proc t).moved = done) (hn : n ≤ pipeSize - s.pipe.ring.count) :
    PipeInv (s.copyIn t src done n) := by
  have hb := hs.fifo.bound
  have hlen : ((src.drop done).take n).length ≤ n := List.length_take_le n _
  have hroom : s.pipe.ring.count + ((src.drop done).take n).length ≤ pipeSize := by omega
  refine ⟨⟨?_, hroom, hs.fifo.results⟩, fun u => ?_⟩
  · calc (s.copyIn t src done n).input = s.input ++ (src.drop done).take n := rfl
      _ = s.output ++ (s.pipe.ring.contents pipeSize ++ (src.drop done).take n) := by
        rw [hs.fifo.order, List.append_assoc]
      _ = s.output ++ (s.pipe.ring.push pipeSize ((src.drop done).take n)).contents pipeSize := by
        rw [RingBuffer.contents_push hroom]
      _ = (s.copyIn t src done n).output ++
          (s.copyIn t src done n).pipe.ring.contents pipeSize := rfl
  · by_cases hu : u = t
    · subst hu
      simp [PipeState.copyIn, PipeState.setProc, PipeProc.Counts, hmoved]
    · simpa [PipeState.copyIn, PipeState.setProc, hu] using hs.counts u

lemma PipeInv.pipeWrite {fuel : ℕ} {src : List UInt8} {done : ℕ} {interrupted : Bool}
    (hs : PipeInv s) (hmoved : (s.proc t).moved = done) :
    PipeInv (s.pipeWrite fuel t src done interrupted) := by
  induction fuel generalizing s done with
  | zero => exact hs
  | succ fuel ih =>
    have hself : ∀ n, PipeRet.bytes done = .bytes n → n = (s.proc t).moved := fun n hn =>
      (PipeRet.bytes.inj hn).symm.trans hmoved.symm
    rw [PipeState.pipeWrite]
    split
    · exact hs.finish hself (by simp) (by simp) (by simp)
    split
    · rename_i hr
      split
      · exact hs.finish (by simp) (by simp) (by simp) fun _ => hr
      · exact hs.finish hself (by simp) (by simp) (by simp)
    split
    · split
      · split
        · rename_i hd
          exact hs.finish (by simp) (fun _ => hmoved.trans hd) (by simp) (by simp)
        · exact hs.finish hself (by simp) (by simp) (by simp)
      · exact (sameCalls_asleep (fun p => { p with asleep := some .writers })
          fun _ => ⟨rfl, rfl⟩).inv ((sameCalls_wakeup .count).inv hs)
    · simp only
      have hin := hs.copyIn src hmoved
        (min_le_right (src.length - done) (pipeSize - s.pipe.ring.count))
      refine ih ((sameCalls_wakeup .count).inv hin) ?_
      rw [((sameCalls_wakeup .count).proc t).2]
      simp [PipeState.copyIn, PipeState.setProc, hmoved]

lemma PipeInv.pipeRelease {readers writers : ℕ} (hs : PipeInv s) :
    PipeInv (s.pipeRelease readers writers) := by
  let u : PipeState := { s with pipe := { s.pipe with readers := readers, writers := writers } }
  have hu : PipeInv u := ⟨⟨hs.fifo.order, hs.fifo.bound, hs.fifo.results⟩, hs.counts⟩
  exact (sameCalls_wakeup .writers).inv ((sameCalls_wakeup .count).inv hu)

lemma PipeInv.step {s' : PipeState} {a : PipeAction} (hs : PipeInv s) (h : s.step a = some s') :
    PipeInv s' := by
  cases a with
  | startRead u len | startWrite u src =>
    simp only [PipeState.step] at h
    split at h
    · split at h
      · cases h
      · exact Option.some.inj h ▸ hs.setCall rfl
    · cases h
  | run u interrupted =>
    simp only [PipeState.step] at h
    split at h
    · cases h
    split at h
    · cases h
    · rename_i hc
      exact Option.some.inj h ▸ hs.pipeRead hc
    · rename_i hc
      have hm := hs.counts u
      rw [PipeProc.Counts, hc] at hm
      exact Option.some.inj h ▸ hs.pipeWrite hm
  | signal u =>
    exact Option.some.inj h ▸ (sameCalls_asleep (fun p => { p with asleep := none })
      fun _ => ⟨rfl, rfl⟩).inv hs
  | closeReader | closeWriter =>
    simp only [PipeState.step] at h
    split at h
    · cases h
    · exact Option.some.inj h ▸ hs.pipeRelease

end Steps

theorem reachable_fifo {buf : ℕ → UInt8} {s : PipeState} (h : (pipeSystem buf).Reachable s) :
    Fifo s := by
  have hinit : ∀ s, (pipeSystem buf).init s → PipeInv s := by
    rintro s rfl
    exact ⟨⟨rfl, Nat.zero_le _, by simp [pipeCreate]⟩, fun _ => trivial⟩
  exact (h.invariant hinit fun _ _ _ hs hst => hs.step hst).fifo

theorem reachable_fifo_closed : ∃ s, ((pipeCreate fun _ => 0).step (.startWrite 0 [1, 2, 3])).bind
      (fun s => (s.step (.run 0 false)).bind fun s => (s.step (.startRead 1 2)).bind fun s =>
        (s.step (.run 1 false)).bind fun s => s.step .closeWriter) = some s ∧
    s.output = [1, 2] ∧ Fifo s := by
  refine ⟨_, rfl, rfl, @reachable_fifo (fun _ => 0) _ ?_⟩
  exact .step .closeWriter (.step (.run 1 false) (.step (.startRead 1 2) (.step (.run 0 false)
    (.step (.startWrite 0 [1, 2, 3]) (.init rfl) rfl) rfl) rfl) rfl) rfl

end MyOS.Fs
