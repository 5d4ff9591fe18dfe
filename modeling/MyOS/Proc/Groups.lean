import MyOS.Proc.Signal

/-! Process groups and sessions. -/

namespace MyOS.Proc

open Library

def maxProcs : ℕ := 64

instance : NeZero maxProcs := ⟨by decide⟩

abbrev Slot := Fin maxProcs

def toInt (x : ℤ) : ℤ := x.bmod (2 ^ 32)

structure GroupProc where
  state : ProcState := .unused
  pid : ℤ := 0
  pgid : ℤ := 0
  sid : ℤ := 0
  parent : Option Slot := none

def GroupProc.Alive (p : GroupProc) : Prop :=
  p.state ≠ .unused ∧ p.state ≠ .zombie ∧ p.state ≠ .dead

instance (p : GroupProc) : Decidable p.Alive := by
  unfold GroupProc.Alive
  infer_instance

structure GroupState where
  procs : Slot → GroupProc := fun _ => {}
  nextPid : ℤ := 1

namespace GroupState

variable (s : GroupState)

def set (i : Slot) (p : GroupProc) : GroupState :=
  { s with procs := Function.update s.procs i p }

variable {s} in
@[simp]
lemma set_self {i : Slot} {p : GroupProc} : (s.set i p).procs i = p :=
  Function.update_self ..

variable {s} in
@[simp]
lemma set_of_ne {i j : Slot} {p : GroupProc} (h : j ≠ i) : (s.set i p).procs j = s.procs j :=
  Function.update_of_ne h ..

def find (pid : ℤ) : Option Slot :=
  (List.finRange maxProcs).find? fun i => (s.procs i).state ≠ .unused ∧ (s.procs i).pid = pid

def alloc (par : Option Slot) (i : Slot) : GroupState :=
  { s.set i
      { state := .embryo
        pid := s.nextPid
        pgid := par.elim 0 fun q => (s.procs q).pgid
        sid := par.elim 0 fun q => (s.procs q).sid
        parent := par } with
    nextPid := s.nextPid + 1 }

def exit (i : Slot) : GroupState :=
  { s with procs := fun j =>
      let p := s.procs j
      let p := if p.state ≠ .unused ∧ p.parent = some i then { p with parent := none } else p
      if j = i then { p with state := .zombie } else p }

def sysSetpgid (me : Slot) (pid pgid : ℤ) : ℤ × GroupState :=
  if pgid < 0 then (-22, s)
  else
    match (if pid = 0 then some me else s.find (toInt pid)) with
    | none => (-3, s)
    | some i =>
      let p := s.procs i
      if ¬ p.Alive ∨ i ≠ me ∧ p.parent ≠ some me then (-3, s)
      else if p.sid ≠ (s.procs me).sid ∨ p.sid = p.pid then (-1, s)
      else
        let target := if pgid ≠ 0 then toInt pgid else p.pid
        if target ≠ p.pid ∧ ¬ ∃ q, (s.procs q).Alive ∧ (s.procs q).pgid = target ∧
            (s.procs q).sid = (s.procs me).sid then (-1, s)
        else (0, s.set i { p with pgid := target })

def sysSetsid (me : Slot) : ℤ × GroupState :=
  let p := s.procs me
  if ∃ q, (s.procs q).Alive ∧ (s.procs q).pgid = p.pid then (-1, s)
  else (p.pid, s.set me { p with sid := p.pid, pgid := p.pid })

end GroupState

inductive GroupAction
  | alloc (par : Option Slot) (i : Slot)
  | setState (i : Slot) (st : ProcState)
  | exit (i : Slot)
  | reap (i : Slot)
  | free (i : Slot)
  | setpgid (me : Slot) (pid pgid : ℤ)
  | setsid (me : Slot)

namespace GroupState

/-- Each step is a critical section of `proc_lock`; the numbers of the processes do not wrap. -/
inductive Step : GroupState → GroupAction → GroupState → Prop
  | alloc {s par i} (h : (s.procs i).state = .unused) (hp : ∀ q ∈ par, (s.procs q).Alive)
      (hn : s.nextPid < 2 ^ 31 - 1) : Step s (.alloc par i) (s.alloc par i)
  -- Between the states of a live process.
  | setState {s i st} (h : (s.procs i).Alive) (hst : st ≠ .unused ∧ st ≠ .zombie ∧ st ≠ .dead) :
      Step s (.setState i st) (s.set i { s.procs i with state := st })
  | exit {s i} (h : (s.procs i).Alive) : Step s (.exit i) (s.exit i)
  | reap {s i} (h : (s.procs i).state = .zombie) :
      Step s (.reap i) (s.set i { s.procs i with state := .dead })
  | free {s i} (h : (s.procs i).state = .dead ∨ (s.procs i).state = .embryo) :
      Step s (.free i) (s.set i { s.procs i with state := .unused })
  | setpgid {s me pid pgid} (h : (s.procs me).Alive) :
      Step s (.setpgid me pid pgid) (s.sysSetpgid me pid pgid).2
  | setsid {s me} (h : (s.procs me).Alive) : Step s (.setsid me) (s.sysSetsid me).2

def system : System GroupState GroupAction where
  init s := s = {}
  step := Step

end GroupState

end MyOS.Proc

/-! Process groups stay inside sessions. -/

namespace MyOS.Proc

open Library

namespace GroupState

variable {s t : GroupState} {i j me : Slot}

def Used (s : GroupState) (i : Slot) : Prop := (s.procs i).state ≠ .unused
structure Inv (s : GroupState) : Prop where
  next_pos : 1 ≤ s.nextPid
  pid_pos : ∀ i, s.Used i → 1 ≤ (s.procs i).pid
  pid_lt : ∀ i, s.Used i → (s.procs i).pid < s.nextPid
  pid_inj : ∀ i j, s.Used i → s.Used j → (s.procs i).pid = (s.procs j).pid → i = j
  pgid_lt : ∀ i, (s.procs i).Alive → (s.procs i).pgid < s.nextPid
  sid_lt : ∀ i, (s.procs i).Alive → (s.procs i).sid < s.nextPid
  group : ∀ i j, (s.procs i).Alive → (s.procs j).Alive → (s.procs i).pgid = (s.procs j).pgid →
    (s.procs i).pgid ≠ 0 → (s.procs i).sid = (s.procs j).sid
  owner : ∀ i j, (s.procs i).Alive → (s.procs j).Alive → (s.procs i).pgid = (s.procs j).pid →
    (s.procs i).sid = (s.procs j).sid
  session : ∀ i j, (s.procs i).Alive → (s.procs j).Alive → (s.procs i).sid = (s.procs j).pid →
    (s.procs j).sid = (s.procs j).pid
  leader : ∀ i, (s.procs i).Alive → (s.procs i).sid = (s.procs i).pid →
    (s.procs i).pgid = (s.procs i).pid

lemma Inv.mono (h : s.Inv) (hn : t.nextPid = s.nextPid) (hu : ∀ i, t.Used i → s.Used i)
    (ha : ∀ i, (t.procs i).Alive → (s.procs i).Alive)
    (he : ∀ i, (t.procs i).pid = (s.procs i).pid ∧ (t.procs i).pgid = (s.procs i).pgid ∧
      (t.procs i).sid = (s.procs i).sid) : t.Inv := by
  have hpid := fun i => (he i).1
  have hpgid := fun i => (he i).2.1
  have hsid := fun i => (he i).2.2
  constructor
  · rw [hn]
    exact h.next_pos
  · intro i hi
    rw [hpid]
    exact h.pid_pos i (hu i hi)
  · intro i hi
    rw [hpid, hn]
    exact h.pid_lt i (hu i hi)
  · intro i j hi hj
    rw [hpid, hpid]
    exact h.pid_inj i j (hu i hi) (hu j hj)
  · intro i hi
    rw [hpgid, hn]
    exact h.pgid_lt i (ha i hi)
  · intro i hi
    rw [hsid, hn]
    exact h.sid_lt i (ha i hi)
  · intro i j hi hj
    rw [hpgid, hpgid, hsid, hsid]
    exact h.group i j (ha i hi) (ha j hj)
  · intro i j hi hj
    rw [hpgid, hpid, hsid, hsid]
    exact h.owner i j (ha i hi) (ha j hj)
  · intro i j hi hj
    rw [hpid, hsid, hsid]
    exact h.session i j (ha i hi) (ha j hj)
  · intro i hi
    rw [hpid, hpgid, hsid]
    exact h.leader i (ha i hi)

lemma Inv.setState {st : ProcState} (h : s.Inv) (hu : st ≠ .unused → s.Used i)
    (ha : st ≠ .unused → st ≠ .zombie → st ≠ .dead → (s.procs i).Alive) :
    (s.set i { s.procs i with state := st }).Inv := by
  refine h.mono rfl (fun j hj => ?_) (fun j hj => ?_) fun j => ?_
  · by_cases hji : j = i
    · subst hji
      exact hu (by simpa [Used, set] using hj)
    · simpa [Used, set, hji] using hj
  · by_cases hji : j = i
    · subst hji
      have hst : st ≠ .unused ∧ st ≠ .zombie ∧ st ≠ .dead := by
        simpa [GroupProc.Alive, set] using hj
      exact ha hst.1 hst.2.1 hst.2.2
    · simpa [set, hji] using hj
  · by_cases hji : j = i
    · subst hji
      simp [set]
    · simp [set, hji]

lemma Inv.exit (h : s.Inv) (hi : (s.procs i).Alive) : (s.exit i).Inv := by
  refine h.mono rfl (fun j hj => ?_) (fun j hj => ?_) fun j => ?_
  · by_cases hji : j = i
    · subst hji
      exact hi.1
    · unfold Used GroupState.exit at hj
      dsimp only at hj
      rw [if_neg hji] at hj
      split_ifs at hj with hp
      · exact hp.1
      · exact hj
  · by_cases hji : j = i
    · subst hji
      exact hi
    · unfold GroupState.exit at hj
      dsimp only at hj
      rw [if_neg hji] at hj
      split_ifs at hj
      · exact hj
      · exact hj
  · unfold GroupState.exit
    dsimp only
    split_ifs <;> exact ⟨rfl, rfl, rfl⟩

lemma Inv.inherited (h : s.Inv) {par : Option Slot} (hp : ∀ q ∈ par, (s.procs q).Alive) :
    (par.elim 0 fun q => (s.procs q).pgid) < s.nextPid ∧
      (par.elim 0 fun q => (s.procs q).sid) < s.nextPid := by
  cases par with
  | none => exact ⟨h.next_pos, h.next_pos⟩
  | some q => exact ⟨h.pgid_lt q (hp q rfl), h.sid_lt q (hp q rfl)⟩

structure Fits (s : GroupState) (i : Slot) (n : ℤ) (p : GroupProc) : Prop where
  pid_pos : 1 ≤ p.pid
  pid_lt : p.pid < n
  pgid_lt : p.pgid < n
  sid_lt : p.sid < n
  pid_ne : ∀ j, j ≠ i → s.Used j → (s.procs j).pid ≠ p.pid
  group : ∀ j, j ≠ i → (s.procs j).Alive → (s.procs j).pgid = p.pgid → p.pgid ≠ 0 →
    (s.procs j).sid = p.sid
  member : ∀ j, j ≠ i → (s.procs j).Alive → p.pgid = (s.procs j).pid → p.sid = (s.procs j).sid
  owner : ∀ j, j ≠ i → (s.procs j).Alive → (s.procs j).pgid = p.pid → (s.procs j).sid = p.sid
  sessionOf : ∀ j, j ≠ i → (s.procs j).Alive → p.sid = (s.procs j).pid →
    (s.procs j).sid = (s.procs j).pid
  session : ∀ j, j ≠ i → (s.procs j).Alive → (s.procs j).sid = p.pid → p.sid = p.pid
  leader : p.sid = p.pid → p.pgid = p.pid

lemma Inv.update {n : ℤ} {p : GroupProc} (h : s.Inv) (hn : s.nextPid ≤ n) (hp : s.Fits i n p) :
    Inv { procs := Function.update s.procs i p, nextPid := n } := by
  have hself : Function.update s.procs i p i = p := Function.update_self ..
  have hother : ∀ j, j ≠ i → Function.update s.procs i p j = s.procs j :=
    fun j hj => Function.update_of_ne hj ..
  generalize Function.update s.procs i p = f at hself hother
  subst hself
  have hused : ∀ j, j ≠ i → Used { procs := f, nextPid := n } j → s.Used j := fun j hj hu => by
    rw [Used, ← hother j hj]
    exact hu
  constructor
  · exact h.next_pos.trans hn
  · intro a ha
    by_cases hai : a = i
    · subst hai
      exact hp.pid_pos
    · change 1 ≤ (f a).pid
      rw [hother a hai]
      exact h.pid_pos a (hused a hai ha)
  · intro a ha
    by_cases hai : a = i
    · subst hai
      exact hp.pid_lt
    · change (f a).pid < n
      rw [hother a hai]
      exact (h.pid_lt a (hused a hai ha)).trans_le hn
  · intro a b ha hb hab
    change (f a).pid = (f b).pid at hab
    by_contra hne
    by_cases hai : a = i
    · subst hai
      have hba : b ≠ a := fun hba => hne hba.symm
      rw [hother b hba] at hab
      exact hp.pid_ne b hba (hused b hba hb) hab.symm
    · by_cases hbi : b = i
      · subst hbi
        rw [hother a hai] at hab
        exact hp.pid_ne a hai (hused a hai ha) hab
      · rw [hother a hai, hother b hbi] at hab
        exact hne (h.pid_inj a b (hused a hai ha) (hused b hbi hb) hab)
  · intro a ha
    change (f a).pgid < n
    by_cases hai : a = i
    · subst hai
      exact hp.pgid_lt
    · have hlt := h.pgid_lt a
      grind
  · intro a ha
    change (f a).sid < n
    by_cases hai : a = i
    · subst hai
      exact hp.sid_lt
    · have hlt := h.sid_lt a
      grind
  · intro a b ha hb hab h0
    change (f a).sid = (f b).sid
    have h1 := hp.group a
    have h2 := hp.group b
    have h3 := h.group a b
    grind
  · intro a b ha hb hab
    change (f a).sid = (f b).sid
    have h1 := hp.member b
    have h2 := hp.owner a
    have h3 := h.owner a b
    grind
  · intro a b ha hb hab
    change (f b).sid = (f b).pid
    have h1 := hp.sessionOf b
    have h2 := hp.session a
    have h3 := h.session a b
    grind
  · intro a ha hab
    change (f a).pgid = (f a).pid
    have h1 := hp.leader
    have h2 := h.leader a
    grind

lemma Inv.alloc {par : Option Slot} (h : s.Inv) (hp : ∀ q ∈ par, (s.procs q).Alive) :
    (s.alloc par i).Inv := by
  obtain ⟨hpgid, hsid⟩ := h.inherited hp
  refine h.update (Int.le_add_one le_rfl)
    ⟨h.next_pos, Int.lt_succ _, hpgid.trans (Int.lt_succ _), hsid.trans (Int.lt_succ _), ?_, ?_, ?_,
      ?_, ?_, ?_, ?_⟩
  · exact fun j _ hj => (h.pid_lt j hj).ne
  · intro j _ hj hg h0
    cases par with
    | none => exact absurd rfl h0
    | some q => exact h.group j q hj (hp q rfl) hg (hg.symm ▸ h0)
  · intro j _ hj hg
    cases par with
    | none =>
      have hpos := h.pid_pos j hj.1
      have hz : 0 = (s.procs j).pid := hg
      omega
    | some q => exact h.owner q j (hp q rfl) hj hg
  · exact fun j _ hj hg => absurd hg (h.pgid_lt j hj).ne
  · intro j _ hj hg
    cases par with
    | none =>
      have hpos := h.pid_pos j hj.1
      have hz : 0 = (s.procs j).pid := hg
      omega
    | some q => exact h.session q j (hp q rfl) hj hg
  · exact fun j _ hj hg => absurd hg (h.sid_lt j hj).ne
  · exact fun hg => absurd hg hsid.ne

lemma setpgid_cases {pid pgid : ℤ} (h : (s.sysSetpgid me pid pgid).2 ≠ s) :
    ∃ i target, (s.procs i).Alive ∧ (s.procs i).sid ≠ (s.procs i).pid ∧
      (target = (s.procs i).pid ∨ ∃ q, (s.procs q).Alive ∧ (s.procs q).pgid = target ∧
        (s.procs q).sid = (s.procs i).sid) ∧
      (s.sysSetpgid me pid pgid).2 = s.set i { s.procs i with pgid := target } := by
  revert h
  unfold sysSetpgid
  by_cases hneg : pgid < 0
  · rw [if_pos hneg]
    exact fun h => absurd rfl h
  rw [if_neg hneg]
  generalize (if pid = 0 then some me else s.find (toInt pid)) = found
  cases found with
  | none => exact fun h => absurd rfl h
  | some i =>
    dsimp only
    generalize (if pgid ≠ 0 then toInt pgid else (s.procs i).pid) = target
    by_cases hsrch : ¬ (s.procs i).Alive ∨ i ≠ me ∧ (s.procs i).parent ≠ some me
    · rw [if_pos hsrch]
      exact fun h => absurd rfl h
    rw [if_neg hsrch]
    by_cases hperm : (s.procs i).sid ≠ (s.procs me).sid ∨ (s.procs i).sid = (s.procs i).pid
    · rw [if_pos hperm]
      exact fun h => absurd rfl h
    rw [if_neg hperm]
    by_cases hgroup : target ≠ (s.procs i).pid ∧ ¬ ∃ q, (s.procs q).Alive ∧
        (s.procs q).pgid = target ∧ (s.procs q).sid = (s.procs me).sid
    · rw [if_pos hgroup]
      exact fun h => absurd rfl h
    rw [if_neg hgroup]
    intro _
    rw [not_or, not_not] at hsrch hperm
    refine ⟨i, target, hsrch.1, hperm.2, ?_, rfl⟩
    rw [not_and_or, not_not, not_not] at hgroup
    rw [hperm.1]
    exact hgroup

lemma Inv.setpgid {pid pgid : ℤ} (h : s.Inv) : (s.sysSetpgid me pid pgid).2.Inv := by
  by_cases hs : (s.sysSetpgid me pid pgid).2 = s
  · rw [hs]
    exact h
  obtain ⟨i, target, hi, hlead, ht, heq⟩ := setpgid_cases hs
  rw [heq]
  refine h.update le_rfl ⟨h.pid_pos i hi.1, h.pid_lt i hi.1, ?_, h.sid_lt i hi, ?_, ?_, ?_, ?_, ?_, ?_,
    fun hg => absurd hg hlead⟩
  · obtain rfl | ⟨q, hq, rfl, -⟩ := ht
    · exact h.pid_lt i hi.1
    · exact h.pgid_lt q hq
  · exact fun j hj hu hpid => hj (h.pid_inj j i hu hi.1 hpid)
  · intro j _ hj hg h0
    obtain rfl | ⟨q, hq, rfl, hsid⟩ := ht
    · exact h.owner j i hj hi hg
    · exact (h.group j q hj hq hg (hg.symm ▸ h0)).trans hsid
  · intro j hj hja hg
    obtain rfl | ⟨q, hq, rfl, hsid⟩ := ht
    · exact absurd (h.pid_inj i j hi.1 hja.1 hg).symm hj
    · exact hsid.symm.trans (h.owner q j hq hja hg)
  · exact fun j _ hj hg => h.owner j i hj hi hg
  · exact fun j _ hj hg => h.session i j hi hj hg
  · exact fun j _ hj hg => h.session j i hj hi hg

lemma Inv.no_session (h : s.Inv) (hme : (s.procs me).Alive)
    (hf : ¬ ∃ q, (s.procs q).Alive ∧ (s.procs q).pgid = (s.procs me).pid)
    (hj : (s.procs j).Alive) : (s.procs j).sid ≠ (s.procs me).pid := by
  intro hsid
  exact hf ⟨me, hme, h.leader me hme (h.session j me hj hme hsid)⟩

lemma Inv.setsid (h : s.Inv) (hme : (s.procs me).Alive) : (s.sysSetsid me).2.Inv := by
  unfold sysSetsid
  dsimp only
  split_ifs with hf
  · exact h
  have hlt := h.pid_lt me hme.1
  refine h.update le_rfl ⟨h.pid_pos me hme.1, hlt, hlt, hlt, ?_, ?_, ?_, ?_, ?_, ?_, fun _ => rfl⟩
  · exact fun j hj hu hpid => hj (h.pid_inj j me hu hme.1 hpid)
  · exact fun j _ hj hg _ => absurd ⟨j, hj, hg⟩ hf
  · exact fun j hj hja hg => absurd (h.pid_inj me j hme.1 hja.1 hg).symm hj
  · exact fun j _ hj hg => absurd ⟨j, hj, hg⟩ hf
  · exact fun j hj hja hg => absurd (h.pid_inj me j hme.1 hja.1 hg).symm hj
  · exact fun j _ hj hg => absurd hg (h.no_session hme hf hj)

lemma Inv.step {a : GroupAction} (h : s.Inv) (hs : Step s a t) : t.Inv := by
  cases hs with
  | alloc _ hp => exact h.alloc hp
  | setState hi hst => exact h.setState (fun _ => hi.1) fun _ _ _ => hi
  | exit hi => exact h.exit hi
  | reap hi =>
    refine h.setState (fun _ => ?_) fun _ _ hd => absurd rfl hd
    rw [Used, hi]
    simp
  | free => exact h.setState (fun hu => absurd rfl hu) fun hu => absurd rfl hu
  | setpgid => exact h.setpgid
  | setsid hme => exact h.setsid hme

lemma Inv.reachable (h : system.Reachable s) : s.Inv := by
  refine h.invariant (I := Inv) (fun s hi => ?_) fun _ _ _ hs hst => hs.step hst
  subst hi
  have hdead : ∀ i, ¬ Used {} i := fun i hu => hu rfl
  have hnone : ∀ i, ¬ (({} : GroupState).procs i).Alive := fun i hu => hu.1 rfl
  exact ⟨le_rfl, fun i hi => absurd hi (hdead i), fun i hi => absurd hi (hdead i),
    fun i _ hi => absurd hi (hdead i), fun i hi => absurd hi (hnone i),
    fun i hi => absurd hi (hnone i), fun i _ hi => absurd hi (hnone i),
    fun i _ hi => absurd hi (hnone i), fun i _ hi => absurd hi (hnone i),
    fun i hi => absurd hi (hnone i)⟩

theorem groups_in_sessions (s : GroupState) (hs : system.Reachable s) :
    (∀ i j, (s.procs i).Alive → (s.procs j).Alive → (s.procs i).pgid = (s.procs j).pgid →
      (s.procs i).pgid ≠ 0 → (s.procs i).sid = (s.procs j).sid) ∧
      (∀ i, (s.procs i).Alive → (s.procs i).sid = (s.procs i).pid →
        (s.procs i).pgid = (s.procs i).pid) ∧
      ∀ me, (s.procs me).Alive → ∀ r t, s.sysSetsid me = (r, t) → r ≠ -1 →
        (t.procs me).pgid = (t.procs me).pid ∧ (t.procs me).sid = (t.procs me).pid ∧
          ∀ j, (t.procs j).Alive →
            (t.procs j).pgid = (t.procs me).pid ∨ (t.procs j).sid = (t.procs me).pid → j = me := by
  have h := Inv.reachable hs
  refine ⟨h.group, h.leader, fun me hme r t hset hr => ?_⟩
  unfold sysSetsid at hset
  dsimp only at hset
  split_ifs at hset with hf
  · rw [Prod.mk.injEq] at hset
    exact absurd hset.1.symm hr
  rw [Prod.mk.injEq] at hset
  obtain ⟨-, rfl⟩ := hset
  rw [set_self]
  refine ⟨rfl, rfl, fun j hj hor => ?_⟩
  by_contra hne
  rw [set_of_ne hne] at hj hor
  obtain hg | hg := hor
  · exact hf ⟨j, hj, hg⟩
  · exact h.no_session hme hf hj hg

def family : { s // system.Reachable s } :=
  have h₁ : system.Reachable _ := .step (.alloc none 0) (.init rfl) (.alloc rfl (by simp) (by decide))
  have h₂ : system.Reachable _ := .step (.setsid 0) h₁ (.setsid (by decide))
  have h₃ : system.Reachable _ := .step (.alloc (some 0) 1) h₂ (.alloc (by decide +kernel) (by decide +kernel) (by decide +kernel))
  ⟨_, h₃⟩

theorem groups_in_sessions_family : (family.1.procs 0).pgid = 1 ∧ (family.1.procs 1).pgid = 1 ∧
    (family.1.procs 0).sid = (family.1.procs 1).sid ∧
    ∃ t, family.1.sysSetsid 1 = (2, t) ∧ (t.procs 1).pgid = 2 ∧ (t.procs 0).pgid = 1 ∧
      ∀ j, (t.procs j).Alive → (t.procs j).pgid = (t.procs 1).pid ∨ (t.procs j).sid = (t.procs 1).pid → j = 1 := by
  obtain ⟨hgroup, -, hsetsid⟩ := groups_in_sessions _ family.2
  have halive : (family.1.procs 0).Alive ∧ (family.1.procs 1).Alive := by decide +kernel
  have hr : (family.1.sysSetsid 1).1 = 2 := by decide +kernel
  have ht : ((family.1.sysSetsid 1).2.procs 1).pgid = 2 ∧ ((family.1.sysSetsid 1).2.procs 0).pgid = 1 := by
    decide +kernel
  rcases hset : family.1.sysSetsid 1 with ⟨r, t⟩
  rw [hset] at hr ht
  obtain rfl : r = 2 := hr
  exact ⟨by decide +kernel, by decide +kernel, hgroup 0 1 halive.1 halive.2 (by decide +kernel) (by decide +kernel),
    t, rfl, ht.1, ht.2, (hsetsid 1 halive.2 2 t hset (by decide)).2.2⟩

end GroupState

end MyOS.Proc
