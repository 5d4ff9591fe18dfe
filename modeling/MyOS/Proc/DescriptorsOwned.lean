import MyOS.Proc.Descriptors

/-! The slots of a process are filled and cleared by one call at a time. -/

namespace MyOS.Proc

open Library Fs

namespace FdTask

variable {ι : Type}

def on : FdTask ι → Option ι
  | fork c _ | inherit c _ | closeAll c _ | clear c _ => some c
  | close _ k | release _ k => k.on
  | _ => none

def clears : FdTask ι → Option (ι × ℕ)
  | clear c n => some (c, n)
  | close _ k | release _ k => k.clears
  | _ => none

def core : FdTask ι → FdTask ι
  | close _ k | release _ k => k.core
  | k => k

lemma closeOld_on (o : Option ℕ) : (closeOld o : FdTask ι).on = none := by
  cases o with
  | none => rfl
  | some f => rfl

lemma on_core (k : FdTask ι) : k.core.on = k.on := by
  induction k with
  | close f k ih => exact ih
  | release f k ih => exact ih
  | _ => rfl

lemma clears_core (k : FdTask ι) : k.core.clears = k.clears := by
  induction k with
  | close f k ih => exact ih
  | release f k ih => exact ih
  | _ => rfl

lemma clears_eq_none {k : FdTask ι} (h : k.on = none) : k.clears = none := by
  induction k with
  | close f k ih => exact ih h
  | release f k ih => exact ih h
  | clear d m => cases h
  | _ => rfl

lemma on_of_clears {k : FdTask ι} {c : ι} {n : ℕ} (h : k.clears = some (c, n)) :
    k.on = some c := by
  induction k with
  | close f k ih => exact ih h
  | release f k ih => exact ih h
  | clear d m =>
    cases h
    rfl
  | _ => cases h

end FdTask

namespace FdState

variable {ι : Type}

section Fields

variable [DecidableEq ι] {s : FdState ι} {a c : ι} {k : FdTask ι}

omit [DecidableEq ι] in
@[simp] lemma withFiles_proc {u : Files} : (s.withFiles u).proc = s.proc := rfl
omit [DecidableEq ι] in
@[simp] lemma withFiles_files {u : Files} : (s.withFiles u).files = u := rfl
@[simp] lemma setTask_files : (s.setTask a k).files = s.files := rfl
@[simp] lemma setSlot_files {fd : Fin maxFds} {v : FdSlot} :
    (s.setSlot c fd v).files = s.files := rfl
@[simp] lemma setState_files {st : ProcState} : (s.setState c st).files = s.files := rfl
@[simp] lemma procAlloc_files : (s.procAlloc c).files = s.files := rfl

lemma setTask_proc (p : ι) : (s.setTask a k).proc p =
    { s.proc p with task := if p = a then k else (s.proc p).task } := by
  by_cases hp : p = a
  · subst hp
    simp [setTask]
  · simp [setTask, hp]

lemma setSlot_proc {fd : Fin maxFds} {v : FdSlot} (p : ι) : (s.setSlot c fd v).proc p =
    { s.proc p with
      files := if p = c then Function.update (s.proc p).files fd v else (s.proc p).files } := by
  by_cases hp : p = c
  · subst hp
    simp [setSlot]
  · simp [setSlot, hp]

lemma setState_proc {st : ProcState} (p : ι) : (s.setState c st).proc p =
    { s.proc p with state := if p = c then st else (s.proc p).state } := by
  by_cases hp : p = c
  · subst hp
    simp [setState]
  · simp [setState, hp]

lemma procAlloc_proc (p : ι) : (s.procAlloc c).proc p =
    if p = c then ⟨.embryo, false, fun _ => .null, .run⟩ else s.proc p := by
  by_cases hp : p = c
  · subst hp
    simp [procAlloc]
  · simp [procAlloc, hp]

end Fields

section Owned

variable [DecidableEq ι]

def Closable (s : FdState ι) (a c : ι) : Prop :=
  if c = a then (s.proc c).state.active = true
  else (s.proc c).state = .embryo ∨ (s.proc c).state = .dead

def TaskOk (s : FdState ι) (a : ι) : FdTask ι → Prop
  | .installWriter fd r _ => (s.proc a).files fd = .file r
  | .fork c n | .inherit c n => c ≠ a ∧ (s.proc c).state = .embryo ∧
      ∀ fd : Fin maxFds, n ≤ fd → (s.proc c).files fd = .null
  | .closeAll c n => s.Closable a c ∧ ∀ fd : Fin maxFds, fd < n → (s.proc c).files fd = .null
  | .clear c n => s.Closable a c ∧ (∀ fd : Fin maxFds, fd < n → (s.proc c).files fd = .null) ∧
      ∀ fd : Fin maxFds, fd = n → ∀ f, (s.proc c).files fd ≠ .file f
  | .close _ k | .release _ k => s.TaskOk a k
  | _ => True

structure Owned (s : FdState ι) : Prop where
  task : ∀ a, s.TaskOk a (s.proc a).task
  unique : ∀ a b c, (s.proc a).task.on = some c → (s.proc b).task.on = some c → a = b
  closing : ∀ c fd f, (s.proc c).files fd = .closing f →
    ∃ a, (s.proc a).task.clears = some (c, fd.val)
  idle : ∀ a, (s.proc a).state.active = false → (s.proc a).task = .run
  empty : ∀ c, (s.proc c).state = .unused ∨ (s.proc c).state = .zombie →
    ∀ fd, (s.proc c).files fd = .null

variable {s t : FdState ι} {a b c : ι} {k : FdTask ι}

lemma taskOk_core (s : FdState ι) (a : ι) (k : FdTask ι) : s.TaskOk a k.core ↔ s.TaskOk a k := by
  induction k with
  | close f k ih => exact ih
  | release f k ih => exact ih
  | _ => exact Iff.rfl

lemma TaskOk.on_state (h : s.TaskOk a k) (hon : k.on = some c) :
    if c = a then (s.proc c).state.active = true
    else (s.proc c).state = .embryo ∨ (s.proc c).state = .dead := by
  induction k with
  | close f k ih => exact ih h hon
  | release f k ih => exact ih h hon
  | fork d n | inherit d n =>
    cases hon
    rw [if_neg h.1]
    exact .inl h.2.1
  | closeAll d n | clear d n =>
    cases hon
    exact h.1
  | _ => cases hon

lemma TaskOk.frame (h : s.TaskOk a k) (ha : t.proc a = s.proc a)
    (hon : ∀ c, k.on = some c → t.proc c = s.proc c) : t.TaskOk a k := by
  induction k with
  | close f k ih => exact ih h hon
  | release f k ih => exact ih h hon
  | installWriter fd r w =>
    simp only [TaskOk, ha]
    exact h
  | fork d n | inherit d n =>
    simp only [TaskOk, hon d rfl]
    exact h
  | closeAll d n | clear d n =>
    simp only [TaskOk, Closable, hon d rfl]
    exact h
  | _ => trivial

lemma Owned.self (h : s.Owned) (ha : (s.proc a).state.active = true)
    (hb : (s.proc b).task.on = some a) : b = a := by
  by_contra hne
  have hs := (h.task b).on_state hb
  rw [if_neg (Ne.symm hne)] at hs
  rcases hs with hs | hs <;> simp [hs, ProcState.active] at ha

lemma Owned.taskAt (h : s.Owned) (hat : s.At a k) : s.TaskOk a k := by
  have htask := h.task a
  rwa [hat.2] at htask

lemma Owned.not_closing_self (h : s.Owned) (ha : (s.proc a).state.active = true)
    (hk : (s.proc a).task.clears = none) (fd : Fin maxFds) (f : ℕ) :
    (s.proc a).files fd ≠ .closing f := by
  intro hf
  obtain ⟨b, hb⟩ := h.closing a fd f hf
  obtain rfl := h.self ha (FdTask.on_of_clears hb)
  rw [hk] at hb
  cases hb

lemma Owned.not_closing_on (h : s.Owned) (hon : (s.proc a).task.on = some c)
    (hk : (s.proc a).task.clears = none) (fd : Fin maxFds) (f : ℕ) :
    (s.proc c).files fd ≠ .closing f := by
  intro hf
  obtain ⟨b, hb⟩ := h.closing c fd f hf
  obtain rfl := h.unique b a c (FdTask.on_of_clears hb) hon
  rw [hk] at hb
  cases hb

lemma Owned.not_on (h : s.Owned) (hc : (s.proc c).state = .unused ∨ (s.proc c).state = .zombie)
    (b : ι) : (s.proc b).task.on ≠ some c := by
  intro hb
  have hs := (h.task b).on_state hb
  split_ifs at hs with hcb
  · rcases hc with hc | hc <;> simp [hc, ProcState.active] at hs
  · rcases hc with hc | hc <;> simp [hc] at hs

lemma Owned.change (h : s.Owned) (a c : ι)
    (hframe : ∀ p, p ≠ a → p ≠ c → t.proc p = s.proc p)
    (hself : ∀ b, b ≠ a → (s.proc b).task.on ≠ some a)
    (hother : ∀ b, b ≠ a → (s.proc b).task.on ≠ some c)
    (hrun : c ≠ a → (s.proc c).task = .run ∧ (t.proc c).task = .run)
    (hbefore : ∀ d, (s.proc a).task.on = some d → d = a ∨ d = c)
    (hafter : ∀ d, (t.proc a).task.on = some d → d = a ∨ d = c)
    (hok : t.TaskOk a (t.proc a).task)
    (hclosing : ∀ p fd f, p = a ∨ p = c → (t.proc p).files fd = .closing f →
      (t.proc a).task.clears = some (p, fd.val))
    (hidle : ∀ p, p = a ∨ p = c → (t.proc p).state.active = false → (t.proc p).task = .run)
    (hempty : ∀ p, p = a ∨ p = c → (t.proc p).state = .unused ∨ (t.proc p).state = .zombie →
      ∀ fd, (t.proc p).files fd = .null) : t.Owned := by
  -- the calls of the others are what they were, and about other processes
  have hnone : ∀ b, b ≠ a → ∀ d, (t.proc b).task.on = some d →
      (s.proc b).task.on = some d ∧ d ≠ a ∧ d ≠ c := by
    intro b hb d hd
    by_cases hbc : b = c
    · subst hbc
      rw [(hrun hb).2] at hd
      cases hd
    · rw [hframe b hb hbc] at hd
      exact ⟨hd, fun hda => hself b hb (hda ▸ hd), fun hdc => hother b hb (hdc ▸ hd)⟩
  refine ⟨?_, ?_, ?_, ?_, ?_⟩
  · intro b
    by_cases hb : b = a
    · exact hb ▸ hok
    · by_cases hbc : b = c
      · subst hbc
        rw [(hrun hb).2]
        trivial
      · have htask := hframe b hb hbc
        rw [htask]
        apply (h.task b).frame htask
        intro d hd
        exact hframe d (fun hda => hself b hb (hda ▸ hd)) fun hdc => hother b hb (hdc ▸ hd)
  · intro b b' d hb hb'
    by_cases hba : b = a
    · by_cases hba' : b' = a
      · rw [hba, hba']
      · obtain ⟨-, hda, hdc⟩ := hnone b' hba' d hb'
        rw [hba] at hb
        rcases hafter d hb with hd | hd
        · exact absurd hd hda
        · exact absurd hd hdc
    · obtain ⟨hd, hda, hdc⟩ := hnone b hba d hb
      by_cases hba' : b' = a
      · rw [hba'] at hb'
        rcases hafter d hb' with hd' | hd'
        · exact absurd hd' hda
        · exact absurd hd' hdc
      · exact h.unique b b' d hd (hnone b' hba' d hb').1
  · intro p fd f hf
    by_cases hp : p = a ∨ p = c
    · exact ⟨a, hclosing p fd f hp hf⟩
    · obtain ⟨hpa, hpc⟩ := not_or.1 hp
      rw [hframe p hpa hpc] at hf
      obtain ⟨b, hb⟩ := h.closing p fd f hf
      have hba : b ≠ a := by
        rintro rfl
        exact hp (hbefore p (FdTask.on_of_clears hb))
      have hbc : b ≠ c := by
        rintro rfl
        rw [(hrun hba).1] at hb
        cases hb
      exact ⟨b, by rw [hframe b hba hbc, hb]⟩
  · intro p hp
    by_cases hpac : p = a ∨ p = c
    · exact hidle p hpac hp
    · obtain ⟨hpa, hpc⟩ := not_or.1 hpac
      rw [hframe p hpa hpc] at hp ⊢
      exact h.idle p hp
  · intro p hp
    by_cases hpac : p = a ∨ p = c
    · exact hempty p hpac hp
    · obtain ⟨hpa, hpc⟩ := not_or.1 hpac
      rw [hframe p hpa hpc] at hp ⊢
      exact h.empty p hp

lemma Owned.own (h : s.Owned) (ha : (s.proc a).state.active = true)
    (hon : (s.proc a).task.on = none) (hframe : ∀ p, p ≠ a → t.proc p = s.proc p)
    (hst : (t.proc a).state.active = true) (hafter : ∀ d, (t.proc a).task.on = some d → d = a)
    (hok : t.TaskOk a (t.proc a).task) (hslots : ∀ fd f, (t.proc a).files fd ≠ .closing f) :
    t.Owned := by
  apply h.change a a
  · exact fun p hp _ => hframe p hp
  · exact fun b hb hba => hb (h.self ha hba)
  · exact fun b hb hba => hb (h.self ha hba)
  · exact fun hne => absurd rfl hne
  · intro d hd
    rw [hon] at hd
    cases hd
  · exact fun d hd => .inl (hafter d hd)
  · exact hok
  · intro p fd f hp hf
    obtain rfl : p = a := hp.elim id id
    exact absurd hf (hslots fd f)
  · intro p hp hno
    obtain rfl : p = a := hp.elim id id
    rw [hst] at hno
    cases hno
  · intro p hp hno
    obtain rfl : p = a := hp.elim id id
    rcases hno with hno | hno <;> simp [hno, ProcState.active] at hst

lemma Owned.take (h : s.Owned) (ha : (s.proc a).state.active = true)
    (hon : (s.proc a).task.on = none)
    (hc : (s.proc c).state = .unused ∨ (s.proc c).state = .zombie)
    (hframe : ∀ p, p ≠ a → p ≠ c → t.proc p = s.proc p)
    (hst : (t.proc a).state = (s.proc a).state) (hfiles : (t.proc a).files = (s.proc a).files)
    (hnew : (t.proc c).task = .run ∧ ∀ fd, (t.proc c).files fd = .null)
    (hafter : ∀ d, (t.proc a).task.on = some d → d = c) (hok : t.TaskOk a (t.proc a).task) :
    t.Owned := by
  have hactive : ∀ p, (s.proc p).state.active = true → (s.proc p).state ≠ .unused ∧
      (s.proc p).state ≠ .zombie := by
    intro p hp
    constructor <;> rintro he <;> simp [he, ProcState.active] at hp
  apply h.change a c hframe
  · exact fun b hb hba => hb (h.self ha hba)
  · exact fun b _ => h.not_on hc b
  · intro _
    refine ⟨h.idle c ?_, hnew.1⟩
    rcases hc with hc | hc <;> simp [hc, ProcState.active]
  · intro d hd
    rw [hon] at hd
    cases hd
  · exact fun d hd => .inr (hafter d hd)
  · exact hok
  · rintro p fd f (rfl | rfl) hf
    · rw [hfiles] at hf
      exact absurd hf (h.not_closing_self ha (FdTask.clears_eq_none hon) fd f)
    · rw [hnew.2 fd] at hf
      cases hf
  · rintro p (rfl | rfl) hno
    · rw [hst, ha] at hno
      cases hno
    · exact hnew.1
  · rintro p (rfl | rfl) hno
    · rw [hst] at hno
      exact absurd hno (not_or.2 (hactive p ha))
    · exact hnew.2

lemma Owned.work (h : s.Owned) (ha : (s.proc a).state.active = true)
    (hon : (s.proc a).task.on = some c)
    (hframe : ∀ p, p ≠ a → p ≠ c → t.proc p = s.proc p)
    (htask : c ≠ a → (t.proc c).task = (s.proc c).task)
    (hafter : ∀ d, (t.proc a).task.on = some d → d = c) (hok : t.TaskOk a (t.proc a).task)
    (hclosing : ∀ p fd f, p = a ∨ p = c → (t.proc p).files fd = .closing f →
      (t.proc a).task.clears = some (p, fd.val))
    (hidle : (t.proc a).state.active = false → (t.proc a).task = .run)
    (hempty : ∀ p, p = a ∨ p = c → (t.proc p).state = .unused ∨ (t.proc p).state = .zombie →
      ∀ fd, (t.proc p).files fd = .null) : t.Owned := by
  have hrun : c ≠ a → (s.proc c).task = .run := by
    intro hca
    have hs := (h.task a).on_state hon
    rw [if_neg hca] at hs
    apply h.idle c
    rcases hs with hs | hs <;> simp [hs, ProcState.active]
  apply h.change a c hframe
  · exact fun b hb hba => hb (h.self ha hba)
  · exact fun b hb hbc => hb (h.unique b a c hbc hon)
  · exact fun hca => ⟨hrun hca, (htask hca).trans (hrun hca)⟩
  · intro d hd
    rw [hon] at hd
    exact .inr (Option.some.inj hd).symm
  · exact fun d hd => .inr (hafter d hd)
  · exact hok
  · exact hclosing
  · rintro p (rfl | rfl) hno
    · exact hidle hno
    · by_cases hpa : p = a
      · subst hpa
        exact hidle hno
      · exact (htask hpa).trans (hrun hpa)
  · exact hempty

lemma Owned.congr (h : s.Owned) (hfiles : ∀ p, (t.proc p).files = (s.proc p).files)
    (hstate : ∀ p, (t.proc p).state = (s.proc p).state ∨
      (s.proc p).state.active = true ∧ (t.proc p).state.active = true)
    (htask : ∀ p, (t.proc p).task.core = (s.proc p).task.core)
    (hidle : ∀ p, (t.proc p).task = (s.proc p).task ∨ (t.proc p).state.active = true) :
    t.Owned := by
  have hon : ∀ p, (t.proc p).task.on = (s.proc p).task.on := fun p => by
    rw [← FdTask.on_core, htask, FdTask.on_core]
  have hclears : ∀ p, (t.proc p).task.clears = (s.proc p).task.clears := fun p => by
    rw [← FdTask.clears_core, htask, FdTask.clears_core]
  have hactive : ∀ p, (t.proc p).state.active = (s.proc p).state.active := by
    intro p
    rcases hstate p with hp | ⟨hp, hp'⟩
    · rw [hp]
    · rw [hp, hp']
  have hsame : ∀ p st, st.active = false → ((t.proc p).state = st ↔ (s.proc p).state = st) := by
    intro p st hst
    rcases hstate p with hp | ⟨hp, hp'⟩
    · rw [hp]
    · constructor <;> rintro rfl
      · rw [hp'] at hst
        cases hst
      · rw [hp] at hst
        cases hst
  have hok : ∀ p k, s.TaskOk p k → t.TaskOk p k := by
    intro p k hk
    induction k with
    | close f k ih => exact ih hk
    | release f k ih => exact ih hk
    | installWriter fd r w =>
      simp only [TaskOk, hfiles]
      exact hk
    | fork d n | inherit d n =>
      simp only [TaskOk, hfiles, hsame d .embryo rfl]
      exact hk
    | closeAll d n | clear d n =>
      simp only [TaskOk, Closable, hfiles, hactive, hsame d .embryo rfl, hsame d .dead rfl]
      exact hk
    | _ => trivial
  refine ⟨?_, ?_, ?_, ?_, ?_⟩
  · intro p
    rw [← taskOk_core, htask, taskOk_core]
    exact hok p _ (h.task p)
  · intro p q d hp hq
    rw [hon] at hp hq
    exact h.unique p q d hp hq
  · intro p fd f hf
    rw [hfiles] at hf
    obtain ⟨b, hb⟩ := h.closing p fd f hf
    exact ⟨b, (hclears b).trans hb⟩
  · intro p hp
    rcases hidle p with ht | ht
    · rw [hactive] at hp
      rw [ht]
      exact h.idle p hp
    · rw [ht] at hp
      cases hp
  · intro p hp
    rw [hsame p .unused rfl, hsame p .zombie rfl] at hp
    rw [hfiles]
    exact h.empty p hp

end Owned

section OwnedStep

variable [DecidableEq ι] {s t : FdState ι} {a c : ι} {k k' : FdTask ι} {n : ℕ}

omit [DecidableEq ι] in
lemma At.active (h : s.At a k) : (s.proc a).state.active = true := by
  rw [h.1]
  rfl

lemma taskOk_setTask {b : ι} : (s.setTask a k).TaskOk b k' ↔ s.TaskOk b k' := by
  induction k' with
  | close f k ih => exact ih
  | release f k ih => exact ih
  | _ => simp only [TaskOk, Closable, setTask_proc]

lemma setSlot_self {fd : Fin maxFds} {v : FdSlot} (h : (s.proc c).files fd = v) :
    s.setSlot c fd v = s := by
  subst h
  simp only [setSlot, Function.update_eq_self]

omit [DecidableEq ι] in
lemma At.withFiles (h : s.At a k) (u : Files) : (s.withFiles u).At a k := h

lemma taskOk_closeOld (o : Option ℕ) : s.TaskOk a (.closeOld o) := by
  cases o with
  | none => trivial
  | some f => trivial

lemma Owned.withFiles (h : s.Owned) (u : Files) : (s.withFiles u).Owned :=
  h.congr (fun _ => rfl) (fun _ => .inl rfl) (fun _ => rfl) fun _ => .inl rfl

lemma Owned.goOn (h : s.Owned) (hat : s.At a k) (hk : k'.core = k.core) :
    (s.setTask a k').Owned := by
  apply h.congr
  · exact fun p => by rw [setTask_proc]
  · exact fun p => .inl (by rw [setTask_proc])
  · intro p
    by_cases hp : p = a
    · subst hp
      simp [setTask_proc, hat.2, hk]
    · simp [setTask_proc, hp]
  · intro p
    by_cases hp : p = a
    · subst hp
      exact .inr (by simpa [setTask_proc] using hat.active)
    · exact .inl (by simp [setTask_proc, hp])

lemma Owned.goto (h : s.Owned) (hat : s.At a k) (hk : k.on = none)
    (hk' : ∀ d, k'.on = some d → d = a) (hok : s.TaskOk a k') : (s.setTask a k').Owned := by
  have hon : (s.proc a).task.on = none := by rw [hat.2, hk]
  apply h.own hat.active hon
  · exact fun p hp => by simp [setTask_proc, hp]
  · simpa [setTask_proc] using hat.active
  · simpa [setTask_proc] using hk'
  · simpa [setTask_proc, taskOk_setTask] using hok
  · simpa [setTask_proc] using h.not_closing_self hat.active (FdTask.clears_eq_none hon)

lemma Owned.putSlot (h : s.Owned) (hat : s.At a k) (hk : k.on = none) {fd : Fin maxFds}
    {v : FdSlot} (hv : ∀ f, v ≠ .closing f) (hk' : k'.on = none)
    (hok : (s.setSlot a fd v).TaskOk a k') : ((s.setSlot a fd v).setTask a k').Owned := by
  have hon : (s.proc a).task.on = none := by rw [hat.2, hk]
  apply h.own hat.active hon
  · exact fun p hp => by simp [setTask_proc, setSlot_proc, hp]
  · simpa [setTask_proc, setSlot_proc] using hat.active
  · simp [setTask_proc, hk']
  · simpa [setTask_proc, taskOk_setTask] using hok
  · intro e f
    simp only [setTask_proc, setSlot_proc, if_true]
    by_cases he : e = fd
    · subst he
      simpa using hv f
    · simpa [he] using h.not_closing_self hat.active (FdTask.clears_eq_none hon) e f

lemma Owned.not_closing (h : s.Owned) (hat : s.At a k) (hon : k.on = some c)
    (hk : k.clears = none) (p : ι) (fd : Fin maxFds) (f : ℕ) (hp : p = a ∨ p = c) :
    (s.proc p).files fd ≠ .closing f := by
  rcases hp with rfl | rfl
  · exact h.not_closing_self hat.active (by rw [hat.2, hk]) fd f
  · exact h.not_closing_on (by rw [hat.2, hon]) (by rw [hat.2, hk]) fd f

lemma Owned.store (h : s.Owned) (hat : s.At a k) (hk : k.on = some c) {fd : Fin maxFds}
    {v : FdSlot} (hk' : ∀ d, k'.on = some d → d = c) (hok : (s.setSlot c fd v).TaskOk a k')
    (hold : ∀ p e f, p = a ∨ p = c → (s.proc p).files e = .closing f → p = c ∧ e = fd)
    (hnew : ∀ f, v = .closing f → k'.clears = some (c, fd.val)) :
    ((s.setSlot c fd v).setTask a k').Owned := by
  have hon : (s.proc a).task.on = some c := by rw [hat.2, hk]
  apply h.work hat.active hon
  · exact fun p hp hpc => by simp [setTask_proc, setSlot_proc, hp, hpc]
  · exact fun hca => by simp [setTask_proc, setSlot_proc, hca]
  · simpa [setTask_proc] using hk'
  · simpa [setTask_proc, taskOk_setTask] using hok
  · intro p e f hp hf
    simp only [setTask_proc, setSlot_proc, if_true] at hf ⊢
    by_cases hpe : p = c ∧ e = fd
    · obtain ⟨rfl, rfl⟩ := hpe
      rw [if_pos rfl, Function.update_self] at hf
      exact hnew f hf
    · refine absurd (hold p e f hp ?_) hpe
      split_ifs at hf with hpc
      · rwa [Function.update_of_ne fun he => hpe ⟨hpc, he⟩] at hf
      · exact hf
  · intro hno
    simp [setTask_proc, setSlot_proc, hat.active] at hno
  · rintro p (rfl | rfl) hno
    · simp [setTask_proc, setSlot_proc, hat.1] at hno
    · exact absurd hon (h.not_on (by simpa [setTask_proc, setSlot_proc] using hno) a)

lemma Owned.finish (h : s.Owned) (hat : s.At a k) (hk : k.on = some c) (hclears : k.clears = none)
    {st : ProcState} (hst : st = .unused ∨ st = .zombie → ∀ fd, (s.proc c).files fd = .null) :
    ((s.setState c st).setTask a .run).Owned := by
  apply h.work hat.active (by rw [hat.2, hk])
  · exact fun p hp hpc => by simp [setTask_proc, setState_proc, hp, hpc]
  · exact fun hca => by simp [setTask_proc, setState_proc, hca]
  · simp [setTask_proc, FdTask.on]
  · simp [setTask_proc, TaskOk]
  · intro p fd f hp hf
    simp only [setTask_proc, setState_proc] at hf
    exact absurd hf (h.not_closing hat hk hclears p fd f hp)
  · simp [setTask_proc]
  · intro p hp hno fd
    simp only [setTask_proc, setState_proc] at hno ⊢
    by_cases hpc : p = c
    · rw [if_pos hpc] at hno
      rw [hpc]
      exact hst hno fd
    · obtain rfl := hp.resolve_right hpc
      simp [hpc, hat.1] at hno

lemma Owned.fill (h : s.Owned) (hat : s.At a k) (hk : k = .fork c n ∨ k = .inherit c n)
    (hn : n < maxFds) {v : FdSlot} (hv : ∀ f, v ≠ .closing f)
    (hk' : k'.core = .fork c (n + 1) ∨ k'.core = .inherit c (n + 1)) :
    ((s.setSlot c ⟨n, hn⟩ v).setTask a k').Owned := by
  have hon : k.on = some c := by rcases hk with rfl | rfl <;> rfl
  have hclears : k.clears = none := by rcases hk with rfl | rfl <;> rfl
  obtain ⟨hca, hstate, hnull⟩ : c ≠ a ∧ (s.proc c).state = .embryo ∧
      ∀ fd : Fin maxFds, n ≤ fd → (s.proc c).files fd = .null := by
    have htask := h.taskAt hat
    rcases hk with rfl | rfl <;> exact htask
  refine h.store hat hon (fun d hd => ?_) ?_
    (fun p e f hp hf => absurd hf (h.not_closing hat hon hclears p e f hp))
    fun f hf => absurd hf (hv f)
  · rw [← FdTask.on_core k'] at hd
    rcases hk' with hk' | hk' <;> rw [hk'] at hd <;> exact (Option.some.inj hd).symm
  · have hok : (s.setSlot c ⟨n, hn⟩ v).TaskOk a (.fork c (n + 1)) := by
      refine ⟨hca, by simpa [setSlot_proc] using hstate, ?_⟩
      intro fd hfd
      have hne : fd ≠ ⟨n, hn⟩ := by
        rintro rfl
        simp at hfd
      simpa [setSlot_proc, hne] using hnull fd (by omega)
    rw [← taskOk_core]
    rcases hk' with hk' | hk' <;> rw [hk'] <;> exact hok

lemma Owned.skip (h : s.Owned) (hat : s.At a (.inherit c n)) (hn : n < 3)
    (hk : k'.core = .inherit c (n + 1)) : (s.setTask a k').Owned := by
  have htask := h.task a
  rw [hat.2] at htask
  have hfill := h.fill hat (.inr rfl) (hn.trans (by decide)) (v := .null) (by simp) (.inr hk)
  rwa [setSlot_self (htask.2.2 _ (le_refl n))] at hfill

lemma Owned.start (h : s.Owned) (hat : s.At a k) (hk : k = .fork c n ∨ k = .inherit c n) :
    ((s.setState c .ready).setTask a .run).Owned := by
  apply h.finish hat
  · rcases hk with rfl | rfl <;> rfl
  · rcases hk with rfl | rfl <;> rfl
  · simp

lemma slot_eq_null {v : FdSlot} (h : v.ptr = none) : v = .null := by
  cases v with
  | null => rfl
  | file f | closing f => cases h

lemma Owned.closeNext (h : s.Owned) (hat : s.At a k) (hk : k = .closeAll c n ∨ k = .clear c n)
    (hn : n < maxFds) :
    ((s.setSlot c ⟨n, hn⟩ .null).setTask a (.closeAll c (n + 1))).Owned := by
  have hon : k.on = some c := by rcases hk with rfl | rfl <;> rfl
  obtain ⟨hclosable, hnull⟩ : s.TaskOk a (.closeAll c n) := by
    rcases hk with rfl | rfl
    · exact h.taskAt hat
    · exact ⟨(h.taskAt hat).1, (h.taskAt hat).2.1⟩
  refine h.store hat hon (fun d hd => (Option.some.inj hd).symm) ⟨?_, fun fd hfd => ?_⟩
    (fun p fd f hp hf => ?_) nofun
  · simpa [Closable, setSlot_proc] using hclosable
  · by_cases he : fd = ⟨n, hn⟩
    · subst he
      simp [setSlot_proc]
    · have hlt : fd.val < n := by
        have hne : fd.val ≠ n := fun hv => he (Fin.ext hv)
        omega
      simpa [setSlot_proc, he] using hnull fd hlt
  · -- the slot that is cleared is the only one that was being closed
    obtain ⟨b, hb⟩ := h.closing p fd f hf
    have hba : b = a := by
      rcases hp with rfl | rfl
      · exact h.self hat.active (FdTask.on_of_clears hb)
      · exact h.unique b a p (FdTask.on_of_clears hb) (by rw [hat.2, hon])
    rw [hba, hat.2] at hb
    rcases hk with rfl | rfl
    · cases hb
    · obtain ⟨rfl, hfd⟩ := Prod.mk.inj (Option.some.inj hb)
      exact ⟨rfl, Fin.ext hfd.symm⟩

lemma Owned.closeSlot (h : s.Owned) (hat : s.At a (.closeAll c n)) (hn : n < maxFds) (f : ℕ) :
    ((s.setSlot c ⟨n, hn⟩ (.closing f)).setTask a (.close f (.clear c n))).Owned := by
  obtain ⟨hclosable, hnull⟩ : s.TaskOk a (.closeAll c n) := h.taskAt hat
  refine h.store hat rfl (fun d hd => (Option.some.inj hd).symm)
    ⟨?_, fun fd hfd => ?_, fun fd hfd g => ?_⟩
    (fun p fd g hp hf => absurd hf (h.not_closing hat rfl rfl p fd g hp)) fun _ _ => rfl
  · simpa [Closable, setSlot_proc] using hclosable
  · have hne : fd ≠ ⟨n, hn⟩ := by
      rintro rfl
      simp at hfd
    simpa [setSlot_proc, hne] using hnull fd hfd
  · obtain rfl : fd = ⟨n, hn⟩ := Fin.ext hfd
    simp [setSlot_proc]

lemma Owned.closeDone (h : s.Owned) (hat : s.At a (.closeAll c maxFds)) :
    ((s.setState c (if c = a then .zombie else .unused)).setTask a .run).Owned :=
  h.finish hat rfl rfl fun _ fd => (h.taskAt hat).2 fd fd.isLt

omit [DecidableEq ι] in
lemma At.ne_of_state (h : s.At a k) (hc : (s.proc c).state ≠ .running) : c ≠ a := by
  rintro rfl
  exact hc h.1

lemma Owned.alloc (h : s.Owned) (hat : s.At a k) (hk : k.on = none)
    (hc : (s.proc c).state = .unused) (hk' : ∀ d, k'.on = some d → d = c)
    (hok : (s.procAlloc c).TaskOk a k') : ((s.procAlloc c).setTask a k').Owned := by
  have hca := hat.ne_of_state (c := c) (by simp [hc])
  apply h.take hat.active (by rw [hat.2, hk]) (.inl hc)
  · exact fun p hp hpc => by simp [setTask_proc, procAlloc_proc, hp, hpc]
  · simp [setTask_proc, procAlloc_proc, Ne.symm hca]
  · simp [setTask_proc, procAlloc_proc, Ne.symm hca]
  · simp [setTask_proc, procAlloc_proc, hca]
  · simpa [setTask_proc] using hk'
  · simpa [setTask_proc, taskOk_setTask] using hok

lemma Owned.allocState (h : s.Owned) (hat : s.At a k) (hk : k.on = none)
    (hc : (s.proc c).state = .unused) (hok : s.TaskOk a k) (st : ProcState) :
    ((s.procAlloc c).setState c st).Owned := by
  have hca := hat.ne_of_state (c := c) (by simp [hc])
  have hself : ((s.procAlloc c).setState c st).proc a = s.proc a := by
    simp [setState_proc, procAlloc_proc, Ne.symm hca]
  apply h.take hat.active (by rw [hat.2, hk]) (.inl hc)
  · exact fun p hp hpc => by simp [setState_proc, procAlloc_proc, hpc]
  · rw [hself]
  · rw [hself]
  · simp [setState_proc, procAlloc_proc]
  · rw [hself, hat.2, hk]
    exact fun d hd => by cases hd
  · rw [hself, hat.2]
    apply hok.frame hself
    intro d hd
    rw [hk] at hd
    cases hd

lemma Owned.step (h : s.Owned) (hs : Step s a t) : t.Owned := by
  cases hs with
  | schedule hs ht =>
    apply h.congr
    · exact fun p => by rw [setState_proc]
    · intro p
      by_cases hp : p = a
      · subst hp
        exact .inr ⟨hs, by simpa [setState_proc] using ht⟩
      · exact .inl (by simp [setState_proc, hp])
    · exact fun p => by rw [setState_proc]
    · exact fun p => .inl (by rw [setState_proc])
  | sysOpen hat _ | sysDup hat _ | sysPipe hat _ _ _ _ =>
    exact (h.withFiles _).goto (hat.withFiles _) rfl (fun d hd => by cases hd) trivial
  | openClose hat _ hk =>
    refine (h.withFiles _).goto (hat.withFiles _) rfl ?_ ?_
    · rcases hk with rfl | rfl <;> exact fun d hd => by cases hd
    · rcases hk with rfl | rfl <;> trivial
  | install hat _ | sysClose hat _ | installWriter hat _ | installWriterFull hat _ =>
    exact h.putSlot hat rfl (by simp) rfl trivial
  | installFull hat _ | installReaderFull hat _ | spawnFails hat =>
    exact h.goto hat rfl (fun d hd => by cases hd) trivial
  | sysDup2 hat _ _ =>
    apply (h.withFiles _).putSlot (hat.withFiles _) rfl (by simp)
    · exact FdTask.closeOld_on _
    · exact taskOk_closeOld _
  | installReader hat _ =>
    exact h.putSlot hat rfl (by simp) rfl (by simp [TaskOk, setSlot_proc])
  | close hat _ =>
    apply (h.withFiles _).goOn (hat.withFiles _)
    split_ifs <;> rfl
  | release hat => exact (h.withFiles _).goOn (hat.withFiles _) rfl
  | allocFails hat hc =>
    rcases hat with hat | hat <;> exact h.allocState hat rfl hc trivial .unused
  | kernelThread hat hc => exact h.allocState hat rfl hc trivial .ready
  | fork hat hc | spawn hat hc =>
    refine h.alloc hat rfl hc (fun d hd => (Option.some.inj hd).symm) ?_
    exact ⟨hat.ne_of_state (by simp [hc]), by simp [procAlloc_proc], by simp [procAlloc_proc]⟩
  | forkFails hat hc =>
    refine h.alloc hat rfl hc (fun d hd => (Option.some.inj hd).symm) ?_
    have hca := hat.ne_of_state (by rw [hc]; decide)
    exact ⟨by simp [Closable, hca, procAlloc_proc], by simp [procAlloc_proc]⟩
  | forkNull hat hn hf => exact h.fill hat (.inl rfl) hn (by simp) (.inl rfl)
  | forkDup hat hn hf =>
    exact (h.withFiles _).fill (hat.withFiles _) (.inl rfl) hn (by simp) (.inl rfl)
  | forkDone hat => exact h.start hat (.inl rfl)
  | inheritDup hat hn hi hf | inheritConsole hat hn hi hf =>
    exact (h.withFiles _).fill (hat.withFiles _) (.inr rfl) _ (by simp) (.inr rfl)
  | inheritNone hat hn hi => exact h.skip hat hn rfl
  | inheritFails hat hn hi hf => exact (h.withFiles _).skip (hat.withFiles _) hn rfl
  | inheritDone hat => exact h.start hat (.inr rfl)
  | exit hat hi =>
    refine h.goto hat rfl (fun d hd => (Option.some.inj hd).symm) ⟨?_, by simp⟩
    simpa [Closable] using hat.active
  | reap hat hc =>
    have hca := hat.ne_of_state (by rw [hc]; decide)
    apply h.take hat.active (by rw [hat.2]; rfl) (.inr hc)
    · exact fun p hp hpc => by simp [setTask_proc, setState_proc, hp, hpc]
    · simp [setTask_proc, setState_proc, Ne.symm hca]
    · simp [setTask_proc, setState_proc]
    · simpa [setTask_proc, setState_proc, hca] using
        And.intro (h.idle _ (by rw [hc]; rfl)) (h.empty _ (.inr hc))
    · intro d hd
      simp only [setTask_proc, if_true] at hd
      exact (Option.some.inj hd).symm
    · simp only [setTask_proc, if_true, taskOk_setTask]
      exact ⟨by simp [Closable, hca, setState_proc], by simp⟩
  | closeNull hat hn hf =>
    have hnext := h.closeNext hat (.inl rfl) hn
    rwa [setSlot_self (slot_eq_null hf)] at hnext
  | closeSlot hat hn hf => exact h.closeSlot hat hn _
  | clear hat hn => exact h.closeNext hat (.inr rfl) hn
  | closeDone hat => exact h.closeDone hat

end OwnedStep

end FdState

end MyOS.Proc
