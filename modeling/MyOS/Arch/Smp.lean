import MyOS.Library.System
import MyOS.Memory.Page

/-! `smp.c`: the start of the other CPUs and the TLB shootdown. Every access to what the CPUs share is a
step, and so are the kernel's other uses of the page tables and of the TLBs. -/

namespace MyOS.Arch

open Library Memory Function

def maxCpus : ℕ := 64

/-- The sender's loop over the CPUs: the next index, an index whose answer is counted and whose slot
is not written yet, or the wait for the answers. -/
inductive SendPc
  | loop (i : ℕ)
  | post (i : ℕ)
  | wait
  deriving DecidableEq

/-- `flush i`: `flush_local` is done with `i` pages; `counted`: `ncpus > 1` was read; `off me r l`:
after `push_off`, with `cpu_id` and the address of `req`; `done`: it has returned. -/
inductive ShootPc
  | flush (i : ℕ)
  | counted
  | off (me r : ℕ) (l : SendPc)
  | done
  deriving DecidableEq

/-- A call of `tlb_shootdown`. Mappings made after its start have the number `since` or a greater
one. -/
structure Shootdown where
  virt : BitVec 64
  pages : BitVec 64
  since : ℕ
  intena : Bool := false
  pc : ShootPc := .flush 0
  deriving DecidableEq

structure TlbReq where
  virt : BitVec 64
  pages : BitVec 64
  pending : ℕ := 0

/-- `process_inbox` at the slot `s`, with the request it has taken and the pages that are done. -/
structure InboxPc where
  s : ℕ := 0
  req : Option (ℕ × ℕ) := none

/-- The CPUs as `percpu.c` and `smp_init` know them; `waking` is the one that `smp_init` waits for. -/
structure Percpu (C : Type) where
  ncpus : ℕ
  cpus : ℕ → Option C
  id : C → ℕ
  named : C → Bool
  running : C → Bool
  online : C → Bool
  waking : Option C

/-- Page-table entries and TLB entries hold the number of the mapping that they are of; `frames` are the
`struct tlb_req`s on the stacks; `ready` are the calls that wait for a CPU. -/
structure Smp (C : Type) extends Percpu C where
  ints : C → Bool
  clock : ℕ
  pte : ℕ → Option ℕ
  tlb : C → ℕ → Option ℕ
  call : C → Option Shootdown
  ready : List Shootdown
  handler : C → Option InboxPc
  inbox : ℕ → ℕ → Option ℕ
  frames : ℕ → Option TlbReq
  nframes : ℕ

inductive SmpAction (C : Type)
  | map (p : ℕ)
  | unmap (p : ℕ)
  | fill (c : C) (p : ℕ)
  | evict (c : C) (p : ℕ)
  | setInts (c : C) (b : Bool)
  | enter (c : C) (virt pages : BitVec 64)
  | invlpg (c : C)
  | check (c : C)
  | pushOff (c : C)
  | next (c : C)
  | post (c : C)
  | ret (c : C)
  | leave (c : C)
  | poll (c : C)
  | scan (c : C)
  | answer (c : C)
  | preempt (c : C)
  | dispatch (c : C) (k : Shootdown)
  | start (c : C)
  | comeUp (c : C)
  | goOnline (c : C)
  | count
  | giveUp

def pageOf (virt : BitVec 64) (i : ℕ) : ℕ :=
  (virt + BitVec.ofNat 64 (i * pageSize)).toNat / pageSize

namespace Shootdown

def page (k : Shootdown) (i : ℕ) : ℕ := pageOf k.virt i

def flushed (k : Shootdown) : ℕ :=
  match k.pc with
  | .flush i => i
  | _ => k.pages.toNat

def Preemptible (k : Shootdown) : Prop := k.pc = .counted ∨ ∃ i, k.pc = .flush i

end Shootdown

namespace Smp

variable {C : Type} [DecidableEq C]

def initial (bsp : C) : Smp C where
  ncpus := 1
  cpus := update (fun _ => none) 0 (some bsp)
  id := fun _ => 0
  named := fun c => decide (c = bsp)
  running := fun c => decide (c = bsp)
  online := fun c => decide (c = bsp)
  waking := none
  ints := fun _ => false
  clock := 0
  pte := fun _ => none
  tlb := fun _ _ => none
  call := fun _ => none
  ready := []
  handler := fun _ => none
  inbox := fun _ _ => none
  frames := fun _ => none
  nframes := 0

def setTlb (s : Smp C) (c : C) (p : ℕ) (o : Option ℕ) : Smp C :=
  { s with tlb := update s.tlb c (update (s.tlb c) p o) }

def setCall (s : Smp C) (c : C) (o : Option Shootdown) : Smp C :=
  { s with call := update s.call c o }

def setPc (s : Smp C) (c : C) (k : Shootdown) (pc : ShootPc) : Smp C :=
  s.setCall c (some { k with pc := pc })

def setHandler (s : Smp C) (c : C) (o : Option InboxPc) : Smp C :=
  { s with handler := update s.handler c o }

def setInts (s : Smp C) (c : C) (b : Bool) : Smp C :=
  { s with ints := update s.ints c b }

def setSlot (s : Smp C) (i m : ℕ) (o : Option ℕ) : Smp C :=
  { s with inbox := update s.inbox i (update (s.inbox i) m o) }

def setFrame (s : Smp C) (r : ℕ) (o : Option TlbReq) : Smp C :=
  { s with frames := update s.frames r o }

def setPending (s : Smp C) (r : ℕ) (f : ℕ → ℕ) : Smp C :=
  s.setFrame r ((s.frames r).map fun q => { q with pending := f q.pending })

def map (s : Smp C) (p : ℕ) : Smp C :=
  { s with pte := update s.pte p (some s.clock), clock := s.clock + 1 }

def unmap (s : Smp C) (p : ℕ) : Smp C :=
  { s with pte := update s.pte p none }

def check (s : Smp C) (c : C) (k : Shootdown) : Smp C :=
  s.setPc c k (if s.ncpus ≤ 1 then .done else .counted)

def pushOff (s : Smp C) (c : C) (k : Shootdown) : Smp C :=
  { s with ints := update s.ints c false
           frames := update s.frames s.nframes (some { virt := k.virt, pages := k.pages })
           nframes := s.nframes + 1
           call := update s.call c
             (some { k with intena := s.ints c, pc := .off (s.id c) s.nframes (.loop 0) }) }

def onlineAt (s : Percpu C) (i : ℕ) : Bool := (s.cpus i).any s.online

def next (s : Smp C) (c : C) (k : Shootdown) (me r i : ℕ) : Smp C :=
  if s.ncpus ≤ i then s.setPc c k (.off me r .wait)
  else if i = me ∨ onlineAt s.toPercpu i = false then s.setPc c k (.off me r (.loop (i + 1)))
  else (s.setPending r (· + 1)).setPc c k (.off me r (.post i))

def post (s : Smp C) (c : C) (k : Shootdown) (me r i : ℕ) : Smp C :=
  (s.setSlot i me (some r)).setPc c k (.off me r (.loop (i + 1)))

def ret (s : Smp C) (c : C) (k : Shootdown) (r : ℕ) : Smp C :=
  ((s.setFrame r none).setInts c k.intena).setPc c k .done

def scan (s : Smp C) (c : C) (j : ℕ) : Smp C :=
  if s.ncpus ≤ j then s.setHandler c none
  else match s.inbox (s.id c) j with
    | none => s.setHandler c (some { s := j + 1 })
    | some r => (s.setSlot (s.id c) j none).setHandler c (some { s := j, req := some (r, 0) })

def answer (s : Smp C) (c : C) (j r n : ℕ) (q : TlbReq) : Smp C :=
  if n < q.pages.toNat then
    (s.setTlb c (pageOf q.virt n) none).setHandler c (some { s := j, req := some (r, n + 1) })
  else (s.setPending r (· - 1)).setHandler c (some { s := j + 1 })

def start (s : Smp C) (c : C) : Smp C :=
  { s with cpus := update s.cpus s.ncpus (some c)
           id := update s.id c s.ncpus
           named := update s.named c true
           waking := some c }

def Waits (s : Smp C) (c : C) : Prop :=
  ∃ k me r q, s.call c = some k ∧ k.pc = .off me r .wait ∧ s.frames r = some q ∧ 0 < q.pending

def Booting (s : Smp C) : Prop := ∀ b, s.cpus 0 = some b → s.call b = none

inductive Step : Smp C → SmpAction C → Smp C → Prop
  | map {s : Smp C} {p : ℕ} : Step s (.map p) (s.map p)
  | unmap {s : Smp C} {p : ℕ} : Step s (.unmap p) (s.unmap p)
  | fill {s : Smp C} {c : C} {p g : ℕ} (hc : s.running c = true) (hg : s.pte p = some g) :
      Step s (.fill c p) (s.setTlb c p (some g))
  | evict {s : Smp C} {c : C} {p : ℕ} : Step s (.evict c p) (s.setTlb c p none)
  | setInts {s : Smp C} {c : C} {b : Bool} (hc : s.call c = none) (hh : s.handler c = none) :
      Step s (.setInts c b) (s.setInts c b)
  | enter {s : Smp C} {c : C} {virt pages : BitVec 64} (ho : s.online c = true)
      (hc : s.call c = none) (hh : s.handler c = none)
      (hp : ∀ i < pages.toNat, s.pte (pageOf virt i) = none) :
      Step s (.enter c virt pages)
        (s.setCall c (some { virt := virt, pages := pages, since := s.clock }))
  | invlpg {s : Smp C} {c : C} {k : Shootdown} {i : ℕ} (hc : s.call c = some k)
      (hh : s.handler c = none) (hk : k.pc = .flush i) (hi : i < k.pages.toNat) :
      Step s (.invlpg c) ((s.setTlb c (k.page i) none).setPc c k (.flush (i + 1)))
  | check {s : Smp C} {c : C} {k : Shootdown} {i : ℕ} (hc : s.call c = some k)
      (hh : s.handler c = none) (hk : k.pc = .flush i) (hi : k.pages.toNat ≤ i) :
      Step s (.check c) (s.check c k)
  | pushOff {s : Smp C} {c : C} {k : Shootdown} (hc : s.call c = some k) (hh : s.handler c = none)
      (hk : k.pc = .counted) : Step s (.pushOff c) (s.pushOff c k)
  | next {s : Smp C} {c : C} {k : Shootdown} {me r i : ℕ} (hc : s.call c = some k)
      (hk : k.pc = .off me r (.loop i)) : Step s (.next c) (s.next c k me r i)
  | post {s : Smp C} {c : C} {k : Shootdown} {me r i : ℕ} (hc : s.call c = some k)
      (hk : k.pc = .off me r (.post i)) : Step s (.post c) (s.post c k me r i)
  | ret {s : Smp C} {c : C} {k : Shootdown} {me r : ℕ} {q : TlbReq} (hc : s.call c = some k)
      (hh : s.handler c = none) (hk : k.pc = .off me r .wait) (hr : s.frames r = some q)
      (hq : q.pending = 0) : Step s (.ret c) (s.ret c k r)
  | leave {s : Smp C} {c : C} {k : Shootdown} (hc : s.call c = some k) (hh : s.handler c = none)
      (hk : k.pc = .done) : Step s (.leave c) (s.setCall c none)
  | poll {s : Smp C} {c : C} (hc : s.running c = true) (hh : s.handler c = none)
      (hp : s.ints c = true ∨ s.Waits c) : Step s (.poll c) (s.setHandler c (some {}))
  | scan {s : Smp C} {c : C} {j : ℕ} (hh : s.handler c = some { s := j }) :
      Step s (.scan c) (s.scan c j)
  | answer {s : Smp C} {c : C} {j r n : ℕ} {q : TlbReq}
      (hh : s.handler c = some { s := j, req := some (r, n) }) (hr : s.frames r = some q) :
      Step s (.answer c) (s.answer c j r n q)
  | preempt {s : Smp C} {c : C} {k : Shootdown} (hc : s.call c = some k) (hh : s.handler c = none)
      (hk : k.Preemptible) (hi : s.ints c = true) :
      Step s (.preempt c) { (s.setCall c none).setInts c false with ready := k :: s.ready }
  | dispatch {s : Smp C} {c : C} {k : Shootdown} (ho : s.online c = true) (hc : s.call c = none)
      (hh : s.handler c = none) (hk : k ∈ s.ready) :
      Step s (.dispatch c k)
        { (s.setCall c (some k)).setInts c true with ready := s.ready.erase k }
  | start {s : Smp C} {c : C} (hb : s.Booting) (hw : s.waking = none) (hn : s.ncpus < maxCpus)
      (hc : s.named c = false) : Step s (.start c) (s.start c)
  | comeUp {s : Smp C} {c : C} (hn : s.named c = true) (hc : s.running c = false) :
      Step s (.comeUp c) { s with running := update s.running c true }
  | goOnline {s : Smp C} {c : C} (hc : s.running c = true) :
      Step s (.goOnline c) { s with online := update s.online c true }
  | count {s : Smp C} {c : C} (hb : s.Booting) (hw : s.waking = some c) (ho : s.online c = true) :
      Step s .count { s with ncpus := s.ncpus + 1, waking := none }
  | giveUp {s : Smp C} {c : C} (hb : s.Booting) (hw : s.waking = some c)
      (ho : s.online c = false) :
      Step s .giveUp { s with cpus := update s.cpus s.ncpus none, waking := none }

def system (bsp : C) : System (Smp C) (SmpAction C) where
  init s := s = initial bsp
  step := Step

def Stale (s : Smp C) (c : C) (p n : ℕ) : Prop := ∃ g, s.tlb c p = some g ∧ g < n

/-- The CPU `c` caches none of the first `n` pages of the call `k` from before its start. -/
def Clean (s : Smp C) (c : C) (k : Shootdown) (n : ℕ) : Prop :=
  ∀ i < n, i < k.pages.toNat → ¬ s.Stale c (k.page i) k.since

def Answers (s : Smp C) : SmpAction C → Prop
  | .comeUp c => s.waking = some c
  | .giveUp => ∀ c, s.waking = some c → s.running c = false
  | _ => True

/-- No CPU goes wrong where the code does not look: a caller is not moved, between its first `invlpg` and
`push_off`, to a CPU that still caches a page that the call is done with; the CPUs that the call does not
ask because they are not counted in `ncpus` cache none of its pages. -/
def Looks (s : Smp C) : SmpAction C → Prop
  | .dispatch c k => s.Clean c k k.flushed
  | .check c => s.ncpus ≤ 1 → ∀ k, s.call c = some k →
      ∀ d, s.running d = true → d ≠ c → s.Clean d k k.pages.toNat
  | .next c => ∀ k me r i, s.call c = some k → k.pc = .off me r (.loop i) → s.ncpus ≤ i →
      ∀ d, s.running d = true → s.ncpus ≤ s.id d → s.Clean d k k.pages.toNat
  | _ => True

end Smp

end MyOS.Arch
