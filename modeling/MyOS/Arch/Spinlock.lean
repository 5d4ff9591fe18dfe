import MyOS.Library.System

/-! The spinlocks of `lib/spinlock.c`, in the single steps of any number of CPUs. -/

namespace MyOS.Arch

open Library Function

inductive HoldingCaller
  | lock
  | unlock
  | other

inductive SpinPanic
  | deadlock
  | tooLong
  | notHeld

/-- Where a CPU is. At `answered` a call of `spin_holding` by other code has returned. -/
inductive SpinPc (L : Type*)
  | outside
  | locking (m : L)
  | holdingLocked (c : HoldingCaller) (m : L)
  | holdingOwner (c : HoldingCaller) (m : L)
  | answered (m : L) (b : Bool)
  | exchange (m : L) (spins : ℕ)
  | waiting (m : L) (spins : ℕ)
  | setOwner (m : L)
  | unlocking (m : L)
  | clearOwner (m : L)
  | clearLocked (m : L)
  | panicked (why : SpinPanic) (m : L)

variable {C L : Type*}

def HoldingCaller.next (m : L) : HoldingCaller → Bool → SpinPc L
  | .lock, true => .panicked .deadlock m
  | .lock, false => .exchange m 0
  | .unlock, true => .clearOwner m
  | .unlock, false => .panicked .notHeld m
  | .other, b => .answered m b

/-- The locks and the CPUs. `inside` is not in the source: the CPU has returned from `spin_lock` and
has not reached the end of its ownership in `spin_unlock` since. -/
structure SpinState (C L : Type*) where
  busted : Bool
  locked : L → Bool
  owner : L → Option C
  pc : C → SpinPc L
  inside : C → L → Bool

def spinsMax : ℕ := 2000000000

namespace SpinState

variable [DecidableEq C] [DecidableEq L]

def setPc (s : SpinState C L) (p : C) (pc : SpinPc L) : SpinState C L :=
  { s with pc := update s.pc p pc }

def setLocked (s : SpinState C L) (m : L) (v : Bool) : SpinState C L :=
  { s with locked := update s.locked m v }

def setOwner (s : SpinState C L) (m : L) (o : Option C) : SpinState C L :=
  { s with owner := update s.owner m o }

def setInside (s : SpinState C L) (p : C) (m : L) (v : Bool) : SpinState C L :=
  { s with inside := fun q n => if q = p ∧ n = m then v else s.inside q n }

/-- One step of a CPU; `push_off` and `pop_off` are about its own interrupts and left out. A CPU
unlocks what it has locked, and a CPU that panics has no step. -/
inductive Step : SpinState C L → C → SpinState C L → Prop
  | callLock {s p m} (h : s.pc p = .outside) (hn : s.inside p m = false) : Step s p (s.setPc p (.locking m))
  | skipLock {s p m} (h : s.pc p = .locking m) (hb : s.busted = true) :
      Step s p ((s.setPc p .outside).setInside p m true)
  | beginLock {s p m} (h : s.pc p = .locking m) (hb : s.busted = false) :
      Step s p (s.setPc p (.holdingLocked .lock m))
  | free {s p m c} (h : s.pc p = .holdingLocked c m) (hl : s.locked m = false) :
      Step s p (s.setPc p (c.next m false))
  | taken {s p m c} (h : s.pc p = .holdingLocked c m) (hl : s.locked m = true) :
      Step s p (s.setPc p (.holdingOwner c m))
  | compare {s p m c} (h : s.pc p = .holdingOwner c m) :
      Step s p (s.setPc p (c.next m (decide (s.owner m = some p))))
  -- `__atomic_exchange_n` writes 1 in both cases.
  | acquire {s p m n} (h : s.pc p = .exchange m n) (hl : s.locked m = false) :
      Step s p ((s.setPc p (.setOwner m)).setLocked m true)
  | busy {s p m n} (h : s.pc p = .exchange m n) (hl : s.locked m = true) :
      Step s p (s.setPc p (.waiting m n))
  | again {s p m n} (h : s.pc p = .waiting m n) (hl : s.locked m = false) :
      Step s p (s.setPc p (.exchange m n))
  | pause {s p m n} (h : s.pc p = .waiting m n) (hl : s.locked m = true) :
      Step s p (s.setPc p (if n + 1 = spinsMax then .panicked .tooLong m else .waiting m (n + 1)))
  | own {s p m} (h : s.pc p = .setOwner m) :
      Step s p (((s.setPc p .outside).setOwner m (some p)).setInside p m true)
  | callUnlock {s p m} (h : s.pc p = .outside) (hi : s.inside p m = true) :
      Step s p (s.setPc p (.unlocking m))
  | skipUnlock {s p m} (h : s.pc p = .unlocking m) (hb : s.busted = true) :
      Step s p ((s.setPc p .outside).setInside p m false)
  | beginUnlock {s p m} (h : s.pc p = .unlocking m) (hb : s.busted = false) :
      Step s p (s.setPc p (.holdingLocked .unlock m))
  | disown {s p m} (h : s.pc p = .clearOwner m) :
      Step s p (((s.setPc p (.clearLocked m)).setOwner m none).setInside p m false)
  | release {s p m} (h : s.pc p = .clearLocked m) : Step s p ((s.setPc p .outside).setLocked m false)
  | callHolding {s p m} (h : s.pc p = .outside) : Step s p (s.setPc p (.holdingLocked .other m))
  | answer {s p m b} (h : s.pc p = .answered m b) : Step s p (s.setPc p .outside)

def system (C L : Type*) [DecidableEq C] [DecidableEq L] : System (SpinState C L) C where
  init s := s.busted = false ∧ (∀ m, s.locked m = false ∧ s.owner m = none) ∧
    (∀ p, s.pc p = .outside) ∧ ∀ p m, s.inside p m = false
  step := Step

/-- With `panic`, which any code may call at any time (`none`) and which sets `spinlocks_busted`. -/
def panicking (C L : Type*) [DecidableEq C] [DecidableEq L] : System (SpinState C L) (Option C) where
  init := (system C L).init
  step s a t := match a with
    | some p => Step s p t
    | none => t = { s with busted := true }

structure SpinSafe (s : SpinState C L) : Prop where
  exclusive : ∀ m p q, s.inside p m = true → s.inside q m = true → p = q
  holding : ∀ m p b, s.pc p = .answered m b → b = s.inside p m
  noDeadlock : ∀ m p, s.pc p ≠ .panicked .deadlock m
  noNotHeld : ∀ m p, s.pc p ≠ .panicked .notHeld m

end SpinState

def SpinPc.between : SpinPc L → Option L
  | .setOwner m | .clearLocked m => some m
  | _ => none

namespace SpinState

section Invariant

variable {s t : SpinState C L} {p q : C} {m : L} {pc : SpinPc L} {b : Bool}

def HasWord (s : SpinState C L) (p : C) (m : L) : Prop := s.owner m = some p ∨ (s.pc p).between = some m

def Expected (s : SpinState C L) (p : C) (m : L) : HoldingCaller → Prop
  | .lock => s.owner m ≠ some p
  | .unlock => s.owner m = some p
  | .other => True

def Fits (s : SpinState C L) (p : C) : SpinPc L → Prop
  | .outside | .panicked .tooLong _ => True
  | .locking m => s.busted = false → s.inside p m = false
  | .unlocking m => s.busted = false → s.inside p m = true
  | .answered m b => s.busted = false → b = s.inside p m
  | .holdingLocked c m | .holdingOwner c m => s.Expected p m c
  | .exchange m _ | .waiting m _ | .setOwner m | .clearLocked m => s.owner m ≠ some p
  | .clearOwner m => s.owner m = some p
  | .panicked .deadlock _ | .panicked .notHeld _ => False

structure SpinInv (s : SpinState C L) : Prop where
  fits : ∀ p, s.Fits p (s.pc p)
  word : ∀ m p, s.HasWord p m → s.locked m = true
  unique : ∀ m p q, s.HasWord p m → s.HasWord q m → p = q
  inside : s.busted = false → ∀ m p, s.inside p m = true ↔ s.owner m = some p

lemma SpinInv.at_pc (h : SpinInv s) (hpc : s.pc p = pc) : s.Fits p pc := hpc ▸ h.fits p

lemma Fits.congr (h : s.Fits p pc) (hb : t.busted = false → s.busted = false)
    (ho : ∀ m, t.owner m = some p ↔ s.owner m = some p)
    (hi : t.busted = false → ∀ m, t.inside p m = s.inside p m) : t.Fits p pc := by
  cases pc with
  | outside => trivial
  | locking | unlocking | answered =>
    intro hf
    rw [hi hf]
    exact h (hb hf)
  | holdingLocked c | holdingOwner c =>
    cases c with
    | lock => exact mt (ho _).1 h
    | unlock => exact (ho _).2 h
    | other => trivial
  | exchange | waiting | setOwner | clearLocked => exact mt (ho _).1 h
  | clearOwner => exact (ho _).2 h
  | panicked why =>
    cases why with
    | tooLong => trivial
    | deadlock | notHeld => exact h

lemma SpinInv.next (h : SpinInv s) {c : HoldingCaller} (hc : s.Expected p m c)
    (hb : b = true ↔ s.owner m = some p) : s.Fits p (c.next m b) := by
  cases c with
  | lock =>
    obtain rfl : b = false := by simpa using mt hb.1 hc
    exact hc
  | unlock =>
    obtain rfl := hb.2 hc
    exact hc
  | other =>
    intro hbust
    exact Bool.eq_iff_iff.2 (hb.trans (h.inside hbust m p).symm)

lemma between_next (c : HoldingCaller) (m : L) (b : Bool) : (c.next m b).between = none := by
  cases c <;> cases b <;> rfl

lemma SpinInv.panics (h : SpinInv s) (m : L) (p : C) :
    s.pc p ≠ .panicked .deadlock m ∧ s.pc p ≠ .panicked .notHeld m := by
  have hf := h.fits p
  constructor <;>
    · intro hpc
      rw [hpc] at hf
      exact hf

lemma SpinInv.safe (h : SpinInv s) (hb : s.busted = false) : SpinSafe s := by
  refine ⟨?_, ?_, fun m p => (h.panics m p).1, fun m p => (h.panics m p).2⟩
  · intro m p q hp hq
    exact Option.some.inj (((h.inside hb m p).1 hp).symm.trans ((h.inside hb m q).1 hq))
  · intro m p b hpc
    have hf := h.fits p
    rw [hpc] at hf
    exact hf hb

lemma SpinInv.bust (h : SpinInv s) : SpinInv { s with busted := true } where
  fits p := (h.fits p).congr (fun hf => Bool.noConfusion hf) (fun _ => Iff.rfl) (fun _ _ => rfl)
  word := h.word
  unique := h.unique
  inside hf := Bool.noConfusion hf

lemma SpinInv.change (h : SpinInv s) (hpc : ∀ q, q ≠ p → t.pc q = s.pc q)
    (hb : t.busted = false → s.busted = false)
    (ho : ∀ q, q ≠ p → ∀ n, t.owner n = some q ↔ s.owner n = some q)
    (hi : t.busted = false → ∀ q, q ≠ p → ∀ n, t.inside q n = s.inside q n) (hf : t.Fits p (t.pc p))
    (hset : ∀ n, t.HasWord p n → t.locked n = true ∧ (s.HasWord p n ∨ s.locked n = false))
    (hclear : ∀ n, s.locked n = true → t.locked n = true ∨ s.HasWord p n)
    (hin : t.busted = false → ∀ n, t.inside p n = true ↔ t.owner n = some p) : SpinInv t := by
  have hword : ∀ q, q ≠ p → ∀ n, t.HasWord q n → s.HasWord q n := by
    intro q hq n hw
    rwa [HasWord, ho q hq, hpc q hq] at hw
  have hother : ∀ q, q ≠ p → ∀ n, t.HasWord p n → t.HasWord q n → False := by
    intro q hq n hp hw
    have hw' := hword q hq n hw
    rcases (hset n hp).2 with hp' | hl
    · exact hq (h.unique n q p hw' hp')
    · rw [h.word n q hw'] at hl
      cases hl
  constructor
  · intro q
    by_cases hq : q = p
    · exact hq ▸ hf
    · rw [hpc q hq]
      exact (h.fits q).congr hb (ho q hq) (fun hf => hi hf q hq)
  · intro n q hw
    by_cases hq : q = p
    · exact (hset n (hq ▸ hw)).1
    · have hw' := hword q hq n hw
      rcases hclear n (h.word n q hw') with hl | hp
      · exact hl
      · exact absurd (h.unique n q p hw' hp) hq
  · intro n q r hq hr
    by_cases hqp : q = p
    · by_contra hne
      exact hother r (fun hrp => hne (hqp.trans hrp.symm)) n (hqp ▸ hq) hr
    · by_cases hrp : r = p
      · exact (hother q hqp n (hrp ▸ hr) hq).elim
      · exact h.unique n q r (hword q hqp n hq) (hword r hrp n hr)
  · intro hf n q
    by_cases hq : q = p
    · exact hq ▸ hin hf n
    · rw [hi hf q hq, ho q hq]
      exact h.inside (hb hf) n q

variable [DecidableEq C]

lemma SpinInv.setPc (h : SpinInv s) (hf : s.Fits p pc) (hb : pc.between = (s.pc p).between) :
    SpinInv (s.setPc p pc) := by
  have hat : (s.setPc p pc).pc p = pc := update_self ..
  have hword : ∀ n, (s.setPc p pc).HasWord p n → s.HasWord p n := by
    intro n hw
    rwa [HasWord, hat, hb] at hw
  refine h.change (fun q hq => update_of_ne hq ..) id (fun _ _ _ => Iff.rfl)
    (fun _ _ _ _ => rfl) ?_ (fun n hw => ⟨h.word n p (hword n hw), .inl (hword n hw)⟩)
    (fun n hl => .inl hl) (fun hf n => h.inside hf n p)
  rw [hat]
  exact hf.congr id (fun _ => Iff.rfl) (fun _ _ => rfl)

variable [DecidableEq L]

lemma SpinInv.setInside (h : SpinInv s) (hb : s.busted = true) : SpinInv (s.setInside p m b) := by
  have hn : s.busted ≠ false := by rw [hb]; exact Bool.noConfusion
  refine ⟨fun q => ?_, h.word, h.unique, fun hf => absurd hf hn⟩
  exact (h.fits q).congr id (fun _ => Iff.rfl) (fun hf => absurd hf hn)

section Words

variable {n : ℕ}

lemma SpinInv.acquire (h : SpinInv s) (hpc : s.pc p = .exchange m n) (hl : s.locked m = false) :
    SpinInv ((s.setPc p (.setOwner m)).setLocked m true) := by
  have hf : s.owner m ≠ some p := h.at_pc hpc
  refine h.change (fun q hq => update_of_ne hq ..) id (fun _ _ _ => Iff.rfl)
    (fun _ _ _ _ => rfl) ?_ ?_ ?_ (fun hb n => h.inside hb n p)
  · simpa only [setLocked, SpinState.setPc, update_self] using! hf
  · intro k hw
    have hk := h.word k p
    simp only [HasWord, setLocked, SpinState.setPc, update_self, SpinPc.between] at hw hk ⊢
    grind
  · intro k hk
    simp only [setLocked, SpinState.setPc]
    grind

lemma SpinInv.changeOwner (h : SpinInv s) (hw : s.HasWord p m) (b : Bool) :
    SpinInv (((s.setPc p (if b then .outside else .clearLocked m)).setOwner m
      (if b then some p else none)).setInside p m b) := by
  have hown : ∀ q, q ≠ p → s.owner m ≠ some q := fun q hq ho => hq (h.unique m q p (.inl ho) hw)
  refine h.change (p := p) (fun q hq => update_of_ne hq ..) id ?_ ?_ ?_ ?_ (fun _ hk => .inl hk) ?_
  · intro q hq k
    simp only [SpinState.setInside, setOwner, SpinState.setPc]
    grind
  · intro _ q hq k
    simp [SpinState.setInside, setOwner, SpinState.setPc, hq]
  · cases b <;> simp [SpinState.setInside, setOwner, SpinState.setPc, Fits]
  · intro k hk
    have hs : s.HasWord p k := by
      simp only [HasWord, SpinState.setInside, setOwner, SpinState.setPc, update_self] at hk hw ⊢
      grind [SpinPc.between]
    exact ⟨h.word k p hs, .inl hs⟩
  · intro hb k
    have hk := h.inside hb k p
    simp only [SpinState.setInside, setOwner, SpinState.setPc]
    grind

lemma SpinInv.own (h : SpinInv s) (hpc : s.pc p = .setOwner m) :
    SpinInv (((s.setPc p .outside).setOwner m (some p)).setInside p m true) :=
  h.changeOwner (.inr (by rw [hpc]; rfl)) true

lemma SpinInv.disown (h : SpinInv s) (hpc : s.pc p = .clearOwner m) :
    SpinInv (((s.setPc p (.clearLocked m)).setOwner m none).setInside p m false) :=
  h.changeOwner (.inl (h.at_pc hpc)) false

lemma SpinInv.release (h : SpinInv s) (hpc : s.pc p = .clearLocked m) :
    SpinInv ((s.setPc p .outside).setLocked m false) := by
  have hf : s.owner m ≠ some p := h.at_pc hpc
  have hw : s.HasWord p m := .inr (by rw [hpc]; rfl)
  refine h.change (p := p) (fun q hq => update_of_ne hq ..) id (fun _ _ _ => Iff.rfl)
    (fun _ _ _ _ => rfl) ?_ ?_ ?_ (fun hb n => h.inside hb n p)
  · simp [setLocked, SpinState.setPc, Fits]
  · intro k hk
    have hk' := h.word k p
    simp only [HasWord, setLocked, SpinState.setPc, update_self] at hk hk' ⊢
    grind [SpinPc.between]
  · intro k hk
    simp only [setLocked, SpinState.setPc]
    grind

end Words

lemma SpinInv.step (h : SpinInv s) (hs : Step s p t) : SpinInv t := by
  cases hs with
  | callLock hpc hn => exact h.setPc (fun _ => hn) (by rw [hpc]; rfl)
  | skipLock hpc hb | skipUnlock hpc hb =>
    have hmoved : SpinInv (s.setPc p .outside) := h.setPc trivial (by rw [hpc]; rfl)
    exact hmoved.setInside hb
  | @beginLock m hpc hb =>
    have hout : s.inside p m = false := h.at_pc hpc hb
    have hown : s.Fits p (.holdingLocked .lock m) := fun ho => by
      rw [(h.inside hb m p).2 ho] at hout
      cases hout
    exact h.setPc hown (by rw [hpc]; rfl)
  | @free m c hpc hl =>
    have hown : s.owner m ≠ some p := fun ho => by
      rw [h.word m p (.inl ho)] at hl
      cases hl
    have hnext := h.next (h.at_pc hpc) (iff_of_false Bool.false_ne_true hown)
    exact h.setPc hnext (by rw [hpc, between_next]; rfl)
  | taken hpc hl | busy hpc hl | again hpc hl =>
    have hf := h.at_pc hpc
    exact h.setPc hf (by rw [hpc]; rfl)
  | compare hpc =>
    have hnext := h.next (h.at_pc hpc) decide_eq_true_iff
    exact h.setPc hnext (by rw [hpc, between_next]; rfl)
  | acquire hpc hl => exact h.acquire hpc hl
  | pause hpc hl =>
    have hf := h.at_pc hpc
    split_ifs
    · exact h.setPc trivial (by rw [hpc]; rfl)
    · exact h.setPc hf (by rw [hpc]; rfl)
  | own hpc => exact h.own hpc
  | callUnlock hpc hi => exact h.setPc (fun _ => hi) (by rw [hpc]; rfl)
  | @beginUnlock m hpc hb =>
    have hown : s.Fits p (.holdingLocked .unlock m) := (h.inside hb m p).1 (h.at_pc hpc hb)
    exact h.setPc hown (by rw [hpc]; rfl)
  | disown hpc => exact h.disown hpc
  | release hpc => exact h.release hpc
  | @callHolding m hpc =>
    have hany : s.Fits p (.holdingLocked .other m) := trivial
    exact h.setPc hany (by rw [hpc]; rfl)
  | answer hpc => exact h.setPc trivial (by rw [hpc]; rfl)

lemma SpinInv.start (h : (system C L).init s) : SpinInv s := by
  obtain ⟨-, hfree, hpc, hin⟩ := h
  have hword : ∀ m p, ¬ s.HasWord p m := by
    rintro m p (ho | hb)
    · rw [(hfree m).2] at ho
      cases ho
    · rw [hpc p] at hb
      cases hb
  refine ⟨fun p => by rw [hpc p]; trivial, ?_, ?_, ?_⟩
  · exact fun m p hw => absurd hw (hword m p)
  · exact fun m p q hw => absurd hw (hword m p)
  · intro _ m p
    rw [hin p m, (hfree m).2]
    exact iff_of_false Bool.false_ne_true nofun

lemma Step.busted (hs : Step s p t) : t.busted = s.busted := by cases hs <;> rfl

theorem panicking_safe (h : (panicking C L).Reachable s) :
    (∀ m p, s.pc p ≠ .panicked .deadlock m ∧ s.pc p ≠ .panicked .notHeld m) ∧
      (s.busted = false → SpinSafe s) := by
  have hinv : SpinInv s := by
    refine h.invariant (fun _ hs => .start hs) fun s a t hs hst => ?_
    cases a with
    | some p => exact hs.step hst
    | none => exact (show t = _ from hst) ▸ hs.bust
  exact ⟨hinv.panics, hinv.safe⟩

lemma reachable_panicking (h : (system C L).Reachable s) : (panicking C L).Reachable s := by
  induction h with
  | init h => exact .init h
  | step a _ hs ih => exact .step (some a) ih hs

theorem spinlock_safe (h : (system C L).Reachable s) : SpinSafe s := by
  have hinv : SpinInv s ∧ s.busted = false := by
    refine h.invariant (I := fun s => SpinInv s ∧ s.busted = false) ?_ ?_
    · exact fun _ hs => ⟨.start hs, hs.1⟩
    · exact fun _ _ _ hs hst => ⟨hs.1.step hst, hst.busted.trans hs.2⟩
  exact hinv.1.safe hinv.2

section Witness

def unlocked : SpinState ℕ ℕ where
  busted := false
  locked _ := false
  owner _ := none
  pc _ := .outside
  inside _ _ := false

def contended : { s : SpinState ℕ ℕ // (system ℕ ℕ).Reachable s } :=
  have h₁ : (system ℕ ℕ).Reachable _ := .step 0 (.step 0 (.init (s := unlocked)
    ⟨rfl, fun _ => ⟨rfl, rfl⟩, fun _ => rfl, fun _ _ => rfl⟩) (.callLock (m := 7) rfl rfl)) (.beginLock rfl rfl)
  have h₂ : (system ℕ ℕ).Reachable _ := .step 0 (.step 0 (.step 0 h₁ (.free rfl rfl)) (.acquire rfl rfl)) (.own rfl)
  have h₃ : (system ℕ ℕ).Reachable _ := .step 1 (.step 1 h₂ (.callLock (m := 7) rfl rfl)) (.beginLock rfl rfl)
  ⟨_, .step 1 (.step 1 (.step 1 h₃ (.taken rfl rfl)) (.compare rfl)) (.busy rfl rfl)⟩

def handedOver : { s : SpinState ℕ ℕ // (system ℕ ℕ).Reachable s } :=
  have h₁ : (system ℕ ℕ).Reachable _ := .step 0 (.step 0 contended.2 (.callUnlock (m := 7) rfl rfl)) (.beginUnlock rfl rfl)
  have h₂ : (system ℕ ℕ).Reachable _ := .step 0 (.step 0 h₁ (.taken rfl rfl)) (.compare rfl)
  have h₃ : (system ℕ ℕ).Reachable _ := .step 0 (.step 0 h₂ (.disown rfl)) (.release rfl)
  ⟨_, .step 1 (.step 1 (.step 1 h₃ (.again rfl rfl)) (.acquire rfl rfl)) (.own rfl)⟩

theorem spinlock_safe_handedOver : contended.1.inside 0 7 = true ∧ contended.1.pc 1 = .waiting 7 0 ∧
    handedOver.1.inside 0 7 = false ∧ handedOver.1.inside 1 7 = true ∧ SpinSafe handedOver.1 :=
  ⟨rfl, rfl, rfl, rfl, spinlock_safe handedOver.2⟩

theorem panicking_safe_busted : ∃ s : SpinState ℕ ℕ, s.busted = true ∧ s.inside 0 7 = false ∧ s.locked 7 = true ∧
    s.inside 2 7 = true ∧ s.pc 1 = .waiting 7 1 ∧
    ∀ m p, s.pc p ≠ .panicked .deadlock m ∧ s.pc p ≠ .panicked .notHeld m := by
  have h₁ : (panicking ℕ ℕ).Reachable _ := .step none (reachable_panicking contended.2) rfl
  have h₂ : (panicking ℕ ℕ).Reachable _ := .step (some 0) (.step (some 0) h₁ (.callUnlock (m := 7) rfl rfl))
    (.skipUnlock rfl rfl)
  have h₃ : (panicking ℕ ℕ).Reachable _ := .step (some 2) (.step (some 2) h₂ (.callLock (m := 7) rfl rfl))
    (.skipLock rfl rfl)
  have h₄ : (panicking ℕ ℕ).Reachable _ := .step (some 1) h₃ (.pause rfl rfl)
  exact ⟨_, rfl, rfl, rfl, rfl, rfl, (panicking_safe h₄).1⟩

end Witness

end Invariant

end SpinState

end MyOS.Arch
