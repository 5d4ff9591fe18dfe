import MyOS.Proc.LifecycleThreads

/-! What the slots hold: every resource is given back once, and a kernel stack is there as long as a CPU may
run on it. -/

namespace MyOS.Proc

open Library Function

lemma mem_files {f : Res} : f ∈ files ↔ ∃ fd, f = .file fd := by
  simp [files, eq_comm]

lemma mem_exitOrder {f : Res} : f ∈ exitOrder ↔ (∃ fd, f = .file fd) ∨ f = .cwd := by
  simp [exitOrder, mem_files]

lemma not_mem_releaseOrder {f : Res} : f ∉ releaseOrder ↔ f = .old ∨ f = .img := by
  unfold releaseOrder
  rw [List.mem_append, mem_files]
  cases f <;> simp

namespace LifePc

def Empty (f : Res) : LifePc → Prop
  | .stack _ _ | .undo _ _ => True
  | .cwd _ _ => f ≠ .kstack
  | .fork _ | .image _ => f ≠ .kstack ∧ f ≠ .cwd
  | .dup _ l | .console _ l => (∃ fd ∈ l, f = .file fd) ∨ f = .old ∨ f = .img
  | .ready _ => f = .old ∨ f = .img
  | .free _ l _ => f ∉ l
  | _ => False

def Stacked : LifePc → Prop
  | .stack _ _ | .undo _ _ => False
  | _ => True

def Tidy : LifePc → Prop
  | .dup _ l | .console _ l => l.Nodup
  | .exit l _ => ∀ f ∈ l, f ∈ exitOrder
  | _ => True

def Mine (f : Res) : LifePc → Prop
  | .load | .abandon | .stack _ .spawn | .undo _ .spawn | .cwd _ .spawn | .image _ => f = .old
  | .exit l _ => f = .old ∨ f = .img ∨ f ∈ exitOrder ∧ f ∉ l
  | .destroy _ => f ≠ .kstack ∧ f ≠ .old
  | .zombify _ | .gone => f ≠ .kstack
  | .shed => f = .img
  | _ => f = .old ∨ f = .img

end LifePc

structure Holds {C : Type} (l : Ledger (Slot × Res)) (x : Ctx C) (pc : LifePc) : Prop where
  exact : l.Exact
  stack : ∀ p, x = .proc p → l.held (p, .kstack) ≠ none
  mine : ∀ p f, x = .proc p → pc.Mine f → l.held (p, f) = none
  empty : ∀ q f, pc.Owns q → pc.Empty f → l.held (q, f) = none
  stacked : ∀ q, pc.makes = some q → pc.Stacked → l.held (q, .kstack) ≠ none
  tidy : pc.Tidy
  apart : ∀ p q, x = .proc p → pc.Owns q → p ≠ q

namespace LifeMove

variable {C : Type} {l l' : Ledger (Slot × Res)} {x : Ctx C} {pc pc' : LifePc} {p q : Slot} {f : Res}

lemma other (hm : LifeMove l x pc pc' l') (hp : x ≠ .proc p) (hq : ¬ pc.Owns p) :
    l'.held (p, f) = l.held (p, f) := by
  cases hm with
  | dup | console =>
    split_ifs
    all_goals grind [LifePc.Owns, LifePc.makes, LifePc.frees]
  | image => 
    rw [Ledger.move_of_ne]
    all_goals grind [LifePc.Owns, LifePc.makes, LifePc.frees]
  | _ => grind [LifePc.Owns, LifePc.makes, LifePc.frees]

lemma exact (hm : LifeMove l x pc pc' l') (h : Holds l x pc) : l'.Exact := by
  have hs := h.exact
  have hmakes : ∀ q f, pc.makes = some q → pc.Empty f → l.held (q, f) = none :=
    fun q f hq => h.empty q f (.inl hq)
  cases hm with
  | @load p => exact hs.acquire (h.mine p _ rfl (.inr rfl))
  | @stack x q k => exact hs.acquire (hmakes q _ rfl trivial)
  | @cwd x q k | @fork x q => exact hs.acquire (hmakes q _ rfl (by simp [LifePc.Empty]))
  | @image p q => exact hs.move (by simp) (hmakes q _ rfl (by simp [LifePc.Empty]))
  | @dup p q fd fds | @console p q fd fds =>
    split_ifs
    · exact hs.acquire (hmakes q _ rfl (.inl ⟨fd, List.mem_cons_self, rfl⟩))
    · exact hs
  | openFile hfd => exact hs.acquire hfd
  | chdir => exact hs.release.acquire Ledger.release_self
  | abandon | release | exit | destroy | shed | closeFile => exact hs.release
  | noStack | noFork | dupped | consoled | startExit | noMm => exact hs

lemma owns_of (hm : LifeMove l x pc pc' l') (hq : pc'.Owns q) : pc.Owns q := by
  cases hm with
  | @cwd x q k => cases k <;> exact hq
  | _ => grind [LifePc.Owns, LifePc.makes, LifePc.frees]

lemma keep_stack (hm : LifeMove l x pc pc' l') (h : Holds l x pc) (hp : x = .proc p) :
    l'.held (p, .kstack) ≠ none := by
  have hs := h.stack p hp
  have hapart := h.apart p
  have htidy := h.tidy
  cases hm with
  | dup | console =>
    split_ifs
    all_goals grind [LifePc.Owns, LifePc.makes, LifePc.frees]
  | image =>
    rw [Ledger.move_of_ne (by simp) (by simp)]
    exact hs
  | @exit r f fs =>
    have hf : f ∈ exitOrder := htidy f List.mem_cons_self
    rw [mem_exitOrder] at hf
    grind [LifePc.Owns, LifePc.makes, LifePc.frees]
  | _ => grind [LifePc.Owns, LifePc.makes, LifePc.frees]

lemma keep_mine (hm : LifeMove l x pc pc' l') (h : Holds l x pc) (hp : x = .proc p) (hf : pc'.Mine f) :
    l'.held (p, f) = none := by
  have hs := h.mine p f hp
  have hapart := h.apart p
  cases hm with
  | @stack x q k | @noStack x q k | @cwd x q k =>
    cases k
    all_goals grind [Life.built, LifePc.Owns, LifePc.makes, LifePc.frees, LifePc.Mine]
  | dup | console =>
    split_ifs
    all_goals grind [LifePc.Owns, LifePc.makes, LifePc.frees, LifePc.Mine]
  | @image r q =>
    have hpq : (r, Res.img) ≠ (q, Res.mm) := by simp
    have hheld := fun y => Ledger.move_held (l := l) (x := y) hpq
    grind [LifePc.Owns, LifePc.makes, LifePc.frees, LifePc.Mine]
  | noMm =>
    cases f
    all_goals grind [mem_exitOrder, LifePc.Owns, LifePc.makes, LifePc.frees, LifePc.Mine]
  | _ => grind [LifePc.Owns, LifePc.makes, LifePc.frees, LifePc.Mine]

lemma keep_empty (hm : LifeMove l x pc pc' l') (h : Holds l x pc) (hq : pc'.Owns q) (hf : pc'.Empty f) :
    l'.held (q, f) = none := by
  have hs := h.empty q f (hm.owns_of hq)
  have hapart := fun p hp => h.apart p q hp (hm.owns_of hq)
  have htidy := h.tidy
  cases hm with
  | @cwd x q k =>
    cases k
    all_goals grind [Life.built, LifePc.Owns, LifePc.makes, LifePc.frees, LifePc.Empty]
  | dup | console =>
    obtain ⟨hfd, -⟩ := List.nodup_cons.1 htidy
    split_ifs
    all_goals grind [LifePc.Owns, LifePc.makes, LifePc.frees, LifePc.Empty]
  | @image r q =>
    have hpq : (r, Res.img) ≠ (q, Res.mm) := by simp
    have hheld := fun y => Ledger.move_held (l := l) (x := y) hpq
    grind [LifePc.Owns, LifePc.makes, LifePc.frees, LifePc.Empty]
  | noFork =>
    rw [LifePc.Empty, not_mem_releaseOrder] at hf
    grind [LifePc.Owns, LifePc.makes, LifePc.frees, LifePc.Empty]
  | _ => grind [LifePc.Owns, LifePc.makes, LifePc.frees, LifePc.Empty]

lemma keep_stacked (hm : LifeMove l x pc pc' l') (h : Holds l x pc) (hq : pc'.makes = some q)
    (hk : pc'.Stacked) : l'.held (q, .kstack) ≠ none := by
  have hs := h.stacked q
  have hapart := fun p hp => h.apart p q hp (hm.owns_of (.inl hq))
  cases hm with
  | @cwd x q k =>
    cases k
    all_goals grind [Life.built, LifePc.Owns, LifePc.makes, LifePc.frees, LifePc.Stacked]
  | dup | console =>
    split_ifs
    all_goals grind [LifePc.Owns, LifePc.makes, LifePc.frees, LifePc.Stacked]
  | @image r q =>
    have hpq : (r, Res.img) ≠ (q, Res.mm) := by simp
    have hheld := fun y => Ledger.move_held (l := l) (x := y) hpq
    grind [LifePc.Owns, LifePc.makes, LifePc.frees, LifePc.Stacked]
  | _ => grind [LifePc.Owns, LifePc.makes, LifePc.frees, LifePc.Stacked]

lemma keep_tidy (hm : LifeMove l x pc pc' l') (h : pc.Tidy) : pc'.Tidy := by
  cases hm with
  | @cwd x q k => cases k <;> trivial
  | fork => exact List.nodup_finRange _
  | image => exact (by decide : ([0, 1, 2] : List (Fin maxFds)).Nodup)
  | dup | console => exact (List.nodup_cons.1 h).2
  | startExit => exact fun f hf => hf
  | exit => exact fun f hf => h f (List.mem_cons_of_mem _ hf)
  | _ => trivial

lemma holds (hm : LifeMove l x pc pc' l') (h : Holds l x pc) : Holds l' x pc' where
  exact := hm.exact h
  stack _ hp := hm.keep_stack h hp
  mine _ _ hp hf := hm.keep_mine h hp hf
  empty _ _ hq hf := hm.keep_empty h hq hf
  stacked _ hq hk := hm.keep_stacked h hq hk
  tidy := hm.keep_tidy h.tidy
  apart _ _ hp hq := h.apart _ _ hp (hm.owns_of hq)

end LifeMove

namespace Life

variable {C : Type} {s t : Life C} {c : C} {x : Ctx C} {p q : Slot} {k : LifePc}

structure SlotStock (s : Life C) (q : Slot) : Prop where
  unused : ∀ f, s.st q = .unused → s.res.held (q, f) = none
  stack : (s.st q).Alive ∨ s.st q = .zombie → s.res.held (q, .kstack) ≠ none
  zombie : ∀ f, s.st q = .zombie → f ≠ .kstack → s.res.held (q, f) = none
  embryo : s.st q = .embryo → s.pc (.proc q) = .user
  mine : ∀ f, (s.st q).Alive → (s.pc (.proc q)).Mine f → s.res.held (q, f) = none

structure ThreadStock (s : Life C) (x : Ctx C) : Prop where
  empty : ∀ q f, (s.pc x).Owns q → (s.pc x).Empty f → s.res.held (q, f) = none
  stacked : ∀ q, (s.pc x).makes = some q → (s.pc x).Stacked → s.res.held (q, .kstack) ≠ none
  tidy : (s.pc x).Tidy

structure Stock (s : Life C) : Prop where
  exact : s.res.Exact
  slot : ∀ q, s.SlotStock q
  thread : ∀ x, s.ThreadStock x

lemma threadStock_of_user (hx : s.pc x = .user) : s.ThreadStock x := by
  constructor
  · intro q f hq
    rw [hx] at hq
    exact absurd hq LifePc.not_owns_user
  · intro q hq
    rw [hx] at hq
    simp [LifePc.makes] at hq
  · rw [hx]
    trivial

namespace SlotStock

lemma congr (h : s.SlotStock q) (hpc : t.pc (.proc q) = s.pc (.proc q))
    (hres : ∀ f, t.res.held (q, f) = s.res.held (q, f))
    (hst : t.st q = s.st q ∨ (s.st q).Alive ∧ (t.st q).Alive) : t.SlotStock q := by
  have hback : (t.st q).Alive → (s.st q).Alive := by
    intro hq
    obtain hs | ⟨hs, -⟩ := hst
    · rwa [hs] at hq
    · exact hs
  have hsame : ∀ o, ¬ ProcState.Alive o → t.st q = o → s.st q = o := by
    rintro o ho rfl
    obtain hs | ⟨-, hs⟩ := hst
    · exact hs.symm
    · exact absurd hs ho
  constructor
  · intro f hq
    rw [hres]
    exact h.unused f (hsame _ (by simp [ProcState.Alive]) hq)
  · intro hq
    rw [hres]
    exact h.stack (hq.imp hback (hsame _ (by simp [ProcState.Alive])))
  · intro f hq hf
    rw [hres]
    exact h.zombie f (hsame _ (by simp [ProcState.Alive]) hq) hf
  · intro hq
    rw [hpc]
    exact h.embryo (hsame _ (by simp [ProcState.Alive]) hq)
  · intro f hq hf
    rw [hpc] at hf
    rw [hres]
    exact h.mine f (hback hq) hf

lemma of_alive (hst : (s.st q).Alive) (hstack : s.res.held (q, .kstack) ≠ none)
    (hmine : ∀ f, (s.pc (.proc q)).Mine f → s.res.held (q, f) = none) : s.SlotStock q := by
  have hne : ∀ o, ¬ ProcState.Alive o → s.st q ≠ o := by
    rintro o ho rfl
    exact ho hst
  constructor
  · intro f hq
    exact absurd hq (hne _ (by simp [ProcState.Alive]))
  · exact fun _ => hstack
  · intro f hq
    exact absurd hq (hne _ (by simp [ProcState.Alive]))
  · intro hq
    exact absurd hq (hne _ (by simp [ProcState.Alive]))
  · exact fun f _ => hmine f

end SlotStock

namespace Stock

lemma holds (h : s.Stock) (ht : s.Threads) (hx : ∀ p, x = .proc p → s.st p = .running) :
    Holds s.res x (s.pc x) := by
  have halive : ∀ p, x = .proc p → (s.st p).Alive := by
    intro p hp
    rw [hx p hp]
    exact .inr (.inl rfl)
  constructor
  · exact h.exact
  · exact fun p hp => (h.slot p).stack (.inl (halive p hp))
  · rintro p f rfl hf
    exact (h.slot p).mine f (halive p rfl) hf
  · exact (h.thread x).empty
  · exact (h.thread x).stacked
  · exact (h.thread x).tidy
  · rintro p q hp hq rfl
    have hr := hx p hp
    obtain hd | hd := ht.owned hq <;> simp [hr] at hd

lemma step (h : s.Stock) (S : Slot → Prop) (hexact : t.res.Exact)
    (hpc : ∀ y, y ≠ x → t.pc y = s.pc y ∨ t.pc y = .user ∧ ∃ r, S r ∧ y = .proc r)
    (hx : ∀ p, x = .proc p → S p) (hapart : ∀ y r, y ≠ x → (s.pc y).Owns r → ¬ S r)
    (hst : ∀ r, ¬ S r → t.st r = s.st r ∨ (s.st r).Alive ∧ (t.st r).Alive)
    (hres : ∀ r f, ¬ S r → t.res.held (r, f) = s.res.held (r, f)) (hslot : ∀ r, S r → t.SlotStock r)
    (hthread : t.ThreadStock x) : t.Stock := by
  refine ⟨hexact, fun r => ?_, fun y => ?_⟩
  · by_cases hr : S r
    · exact hslot r hr
    · refine (h.slot r).congr ?_ (fun f => hres r f hr) (hst r hr)
      refine (hpc _ fun hrx => hr (hx r hrx.symm)).resolve_right ?_
      rintro ⟨-, r', hr', hrr⟩
      exact hr (Ctx.proc.inj hrr ▸ hr')
  · by_cases hy : y = x
    · exact hy ▸ hthread
    · obtain hpy | ⟨hpy, -⟩ := hpc y hy
      · constructor
        · intro q f hq hf
          rw [hpy] at hq hf
          rw [hres q f (hapart y q hy hq)]
          exact (h.thread y).empty q f hq hf
        · intro q hq hk
          rw [hpy] at hq hk
          rw [hres q _ (hapart y q hy (.inl hq))]
          exact (h.thread y).stacked q hq hk
        · rw [hpy]
          exact (h.thread y).tidy
      · exact threadStock_of_user hpy

lemma calm (h : s.Stock) (hc : s.Calm t) : t.Stock := by
  refine ⟨hc.res ▸ h.exact, fun q => ?_, fun x => ?_⟩
  · refine (h.slot q).congr ?_ (fun f => ?_) ((hc.st q).imp_right And.left)
    · rw [hc.pc]
    · rw [hc.res]
  · constructor
    · rw [hc.pc, hc.res]
      exact (h.thread x).empty
    · rw [hc.pc, hc.res]
      exact (h.thread x).stacked
    · rw [hc.pc]
      exact (h.thread x).tidy

variable [DecidableEq C]

lemma own (h : s.Stock) (ht : s.Threads) (hpc : t.pc = update s.pc x k)
    (hst : ∀ q, t.st q = s.st q ∨ (s.st q).Alive ∧ (t.st q).Alive)
    (hx : ∀ p, x = .proc p → s.st p = .running) (hown : ∀ q, k.Owns q → (s.pc x).Owns q)
    (hres : ∀ r f, x ≠ .proc r → ¬ (s.pc x).Owns r → t.res.held (r, f) = s.res.held (r, f))
    (hk : Holds t.res x k) : t.Stock := by
  have hself : t.pc x = k := by rw [hpc, update_self]
  have hother : ∀ y, y ≠ x → t.pc y = s.pc y := by
    intro y hy
    rw [hpc, update_of_ne hy]
  refine h.step (x := x) (fun r => x = .proc r ∨ (s.pc x).Owns r) hk.exact (fun y hy => .inl (hother y hy))
    (fun p hp => .inl hp) (fun y r hy hr => ?_) (fun r _ => hst r)
    (fun r f hr => hres r f (fun hxr => hr (.inl hxr)) fun ho => hr (.inr ho)) (fun r hr => ?_) ?_
  · rintro (hxr | hxr)
    · have hrun := hx r hxr
      obtain hd | hd := ht.owned hr <;> simp [hrun] at hd
    · exact hy (ht.sole y x r hr hxr)
  · obtain rfl | hr := hr
    · refine SlotStock.of_alive ?_ (hk.stack r rfl) fun f hf => ?_
      · obtain hs | ⟨-, hs⟩ := hst r
        · rw [hs, hx r rfl]
          exact .inr (.inl rfl)
        · exact hs
      · rw [hself] at hf
        exact hk.mine r f rfl hf
    · have hdead := ht.owned hr
      have hsame : t.st r = s.st r := by
        refine (hst r).resolve_right fun hal => ?_
        obtain hd | hd := hdead <;> simp [hd, ProcState.Alive] at hal
      constructor
      · intro f hu
        obtain hd | hd := hdead <;> simp [hsame, hd] at hu
      · intro hu
        obtain hd | hd := hdead <;> simp [hsame, hd, ProcState.Alive] at hu
      · intro f hu
        obtain hd | hd := hdead <;> simp [hsame, hd] at hu
      · intro he
        rw [hsame] at he
        rw [hother]
        · exact (h.slot r).embryo he
        · rintro rfl
          have hrun := hx r rfl
          simp [he] at hrun
      · intro f hu
        obtain hd | hd := hdead <;> simp [hsame, hd, ProcState.Alive] at hu
  · constructor
    · rw [hself]
      exact hk.empty
    · rw [hself]
      exact hk.stacked
    · rw [hself]
      exact hk.tidy

omit [DecidableEq C] in
lemma settle (h : s.Stock) (ht : s.Threads) {o : ProcState}
    (hpc : ∀ y, y ≠ x → t.pc y = s.pc y ∨ t.pc y = .user ∧ y = .proc q)
    (hst : t.st = update s.st q o) (hres : t.res = s.res)
    (hx : ∀ p, x = .proc p → s.st p = .running) (hxq : x ≠ .proc q)
    (hq : ∀ y, y ≠ x → ¬ (s.pc y).Owns q) (hmine : ∀ f, (t.pc x).Mine f → (s.pc x).Mine f)
    (hslot : t.SlotStock q) (hthread : t.ThreadStock x) : t.Stock := by
  have hother : ∀ r, r ≠ q → t.st r = s.st r := by
    intro r hr
    rw [hst, update_of_ne hr]
  refine h.step (x := x) (fun r => r = q ∨ x = .proc r) (hres ▸ h.exact) (fun y hy => ?_)
    (fun p hp => .inr hp) (fun y r hy hr => ?_)
    (fun r hr => .inl (hother r fun hrq => hr (.inl hrq))) (fun r f _ => by rw [hres])
    (fun r hr => ?_) hthread
  · obtain hpy | ⟨hpy, hyq⟩ := hpc y hy
    · exact .inl hpy
    · exact .inr ⟨hpy, q, .inl rfl, hyq⟩
  · rintro (rfl | hxr)
    · exact hq y hy hr
    · have hrun := hx r hxr
      obtain hd | hd := ht.owned hr <;> simp [hrun] at hd
  · obtain rfl | rfl := hr
    · exact hslot
    · have hrun := hx r rfl
      have hrq : r ≠ q := by
        rintro rfl
        exact hxq rfl
      have hal : (s.st r).Alive := by
        rw [hrun]
        exact .inr (.inl rfl)
      refine SlotStock.of_alive ?_ ?_ fun f hf => ?_
      · rwa [hother r hrq]
      · rw [hres]
        exact (h.slot r).stack (.inl hal)
      · rw [hres]
        exact (h.slot r).mine f hal (hmine f hf)

lemma mark (h : s.Stock) (ht : s.Threads) {b : FreeBack}
    (hpc : t.pc = update s.pc x (.free q releaseOrder b))
    (hst : t.st = update s.st q .dead) (hres : t.res = s.res)
    (hx : ∀ p, x = .proc p → s.st p = .running) (hq : s.st q = .zombie)
    (hmine : ∀ f, f = .old ∨ f = .img → (s.pc x).Mine f) : t.Stock := by
  have hself : t.pc x = .free q releaseOrder b := by rw [hpc, update_self]
  have hdead : t.st q = .dead := by rw [hst, update_self]
  refine h.settle ht (x := x) (q := q) (fun y hy => .inl ?_) hst hres hx ?_
    (fun y _ => ht.free_of_st (by simp [hq]) (by simp [hq]) y) (fun f hf => hmine f ?_) ?_ ?_
  · rw [hpc, update_of_ne hy]
  · rintro rfl
    have hr := hx q rfl
    simp [hq] at hr
  · rw [hself] at hf
    exact hf
  · constructor <;> simp [hdead, ProcState.Alive]
  · constructor
    · intro r f hr hf
      rw [hself] at hr hf
      obtain rfl : q = r := by simpa [LifePc.Owns, LifePc.makes, LifePc.frees] using hr
      rw [hres]
      refine (h.slot q).zombie f hq ?_
      obtain rfl | rfl := not_mem_releaseOrder.1 hf <;> simp
    · intro r hr
      rw [hself] at hr
      simp [LifePc.makes] at hr
    · rw [hself]
      trivial

lemma done (h : s.Stock) (ht : s.Threads) (hpc : t.pc = update s.pc x k)
    (hst : t.st = update s.st q .unused) (hres : t.res = s.res)
    (hx : ∀ p, x = .proc p → s.st p = .running) (hq : (s.pc x).Owns q) (hempty : ∀ f, (s.pc x).Empty f)
    (hown : ∀ r, ¬ k.Owns r) (htidy : k.Tidy) (hmine : ∀ f, k.Mine f → (s.pc x).Mine f) : t.Stock := by
  have hself : t.pc x = k := by rw [hpc, update_self]
  have hunused : t.st q = .unused := by rw [hst, update_self]
  refine h.settle ht (x := x) (q := q) (fun y hy => .inl ?_) hst hres hx ?_
    (fun y hy hyq => hy (ht.sole y x q hyq hq)) (fun f hf => hmine f (by rwa [hself] at hf)) ?_ ?_
  · rw [hpc, update_of_ne hy]
  · rintro rfl
    have hr := hx q rfl
    obtain hd | hd := ht.owned hq <;> simp [hd] at hr
  · constructor
    · intro f _
      rw [hres]
      exact (h.thread x).empty q f hq (hempty f)
    all_goals simp [hunused, ProcState.Alive]
  · constructor
    · intro r f hr
      rw [hself] at hr
      exact absurd hr (hown r)
    · intro r hr
      rw [hself] at hr
      exact absurd (.inl hr) (hown r)
    · rwa [hself]

lemma makeReady (h : s.Stock) (ht : s.Threads) (hx : ∀ p, x = .proc p → s.st p = .running)
    (hk : s.pc x = .ready q) : ((s.setState q .ready).setPc x .user).Stock := by
  have hq : (s.pc x).Owns q := by
    rw [hk]
    exact .inl rfl
  have he : s.st q = .embryo := ht.makes x q (by rw [hk]; rfl)
  have hxq : x ≠ .proc q := by
    rintro rfl
    have hr := hx q rfl
    simp [he] at hr
  have hst : ((s.setState q .ready).setPc x .user).st = update s.st q .ready := st_setState
  refine h.settle ht (x := x) (q := q) (fun y hy => .inl (update_of_ne hy ..)) hst rfl hx hxq
    (fun y hy hyq => hy (ht.sole y x q hyq hq)) (fun f hf => ?_) ?_
    (threadStock_of_user (update_self ..))
  · have hf' : (update s.pc x LifePc.user x).Mine f := hf
    rw [update_self] at hf'
    rw [hk]
    exact hf'
  · refine SlotStock.of_alive ?_ ?_ fun f hf => ?_
    · rw [hst, update_self]
      exact .inl rfl
    · exact (h.thread x).stacked q (by rw [hk]; rfl) (by rw [hk]; trivial)
    · have hf' : (update s.pc x LifePc.user (.proc q)).Mine f := hf
      rw [update_of_ne (Ne.symm hxq), (h.slot q).embryo he] at hf'
      exact (h.thread x).empty q f hq (by rw [hk]; exact hf')

lemma alloc (h : s.Stock) (ht : s.Threads) {k : Creation} (hx : ∀ p, x = .proc p → s.st p = .running)
    (hq : s.st q = .unused) (hmine : ∀ f, (LifePc.stack q k).Mine f → (s.pc x).Mine f) :
    (s.alloc x q k).Stock := by
  have hself : (s.alloc x q k).pc x = .stack q k := update_self ..
  have hxq : x ≠ .proc q := by
    rintro rfl
    have hr := hx q rfl
    simp [hq] at hr
  have huser : (s.alloc x q k).pc (.proc q) = .user :=
    (update_of_ne (Ne.symm hxq) ..).trans (update_self ..)
  have he : (s.alloc x q k).st q = .embryo := by rw [st_alloc, update_self]
  refine h.settle ht (x := x) (q := q) (fun y hy => ?_) st_alloc rfl hx hxq
    (fun y _ => ht.free_of_st (by simp [hq]) (by simp [hq]) y) (fun f hf => hmine f (by rwa [hself] at hf)) ?_ ?_
  · by_cases hyq : y = .proc q
    · subst hyq
      exact .inr ⟨huser, rfl⟩
    · exact .inl ((update_of_ne hy ..).trans (update_of_ne hyq ..))
  · constructor
    · simp [he]
    · simp [he, ProcState.Alive]
    · simp [he]
    · exact fun _ => huser
    · simp [he, ProcState.Alive]
  · constructor
    · intro r f hr _
      rw [hself] at hr
      obtain rfl : q = r := by simpa [LifePc.Owns, LifePc.makes, LifePc.frees] using hr
      exact (h.slot q).unused f hq
    · intro r _ hk
      rw [hself] at hk
      exact hk.elim
    · rw [hself]
      trivial

lemma zombify (h : s.Stock) (ht : s.Threads) {n n' : ℕ} {w : Bool} (hp : s.st p = .running)
    (hk : s.pc (.proc p) = .zombify n) : (s.zombify c p n' w).Stock := by
  have hpc : (s.zombify c p n' w).pc = update s.pc (.proc p) .gone := by
    unfold Life.zombify
    dsimp only
    rw [tellParent_eq]
    rfl
  have hres : (s.zombify c p n' w).res = s.res := by
    unfold Life.zombify
    dsimp only
    rw [tellParent_eq]
    rfl
  obtain ⟨hz, hother⟩ := st_zombify (s := s) (c := c) (p := p) (n := n') (w := w)
  have hself : (s.zombify c p n' w).pc (.proc p) = .gone := by rw [hpc, update_self]
  have hal : (s.st p).Alive := by
    rw [hp]
    exact .inr (.inl rfl)
  refine h.step (x := .proc p) (fun r => r = p) (hres ▸ h.exact) (fun y hy => .inl ?_)
    (fun r hr => (Ctx.proc.inj hr).symm) (fun y r _ hr => ?_) (fun r hr => alive_of_woken (hother r hr))
    (fun r f _ => by rw [hres]) (fun r hr => ?_) ?_
  · rw [hpc, update_of_ne hy]
  · rintro rfl
    obtain hd | hd := ht.owned hr <;> simp [hd] at hp
  · subst hr
    constructor
    · simp [hz]
    · intro _
      rw [hres]
      exact (h.slot r).stack (.inl hal)
    · intro f _ hf
      rw [hres]
      exact (h.slot r).mine f hal (by rw [hk]; exact hf)
    · simp [hz]
    · simp [hz, ProcState.Alive]
  · constructor
    · intro q f hq
      rw [hself] at hq
      simp [LifePc.Owns, LifePc.makes, LifePc.frees] at hq
    · intro q hq
      rw [hself] at hq
      simp [LifePc.makes] at hq
    · rw [hself]
      trivial

lemma waitRound (h : s.Stock) (ht : s.Threads) {pid : ℤ} {u n w : Bool} (hp : s.st p = .running)
    (hmine : ∀ f, f = .old ∨ f = .img → (s.pc (.proc p)).Mine f) : (s.waitRound c p pid u n w).Stock := by
  have hx : ∀ p', Ctx.proc (C := C) p = .proc p' → s.st p' = .running := by
    intro p' hp'
    rw [← Ctx.proc.inj hp', hp]
  have hk := h.holds ht hx
  -- it goes on, or waits, with what it holds
  have hgo : ∀ k : LifePc, k = .user ∨ k = .wait pid u n → Holds s.res (Ctx.proc (C := C) p) k := by
    rintro k (rfl | rfl)
    all_goals
    refine ⟨hk.exact, hk.stack, fun q f hq hf => hk.mine q f hq (hmine f hf), fun q f hq => ?_, fun q hq => ?_,
      trivial, fun _ q _ hq => ?_⟩
    all_goals simp [LifePc.Owns, LifePc.makes, LifePc.frees] at hq
  unfold Life.waitRound
  split
  · rename_i q hq
    split_ifs with hz
    · exact h.mark (x := .proc p) (b := .done) ht rfl (st_markDead (o := some (s.procs p).pid)) rfl hx hz hmine
    · refine h.own (x := .proc p) (k := .user) ht rfl (fun i => .inl ?_) hx (fun q hq => by simp at hq)
        (fun _ _ _ _ => rfl) (hgo _ (.inl rfl))
      exact congrFun st_reported i
  · split_ifs
    · exact h.own (x := .proc p) (k := .user) ht rfl (fun i => .inl rfl) hx (fun q hq => by simp at hq)
        (fun _ _ _ _ => rfl) (hgo _ (.inl rfl))
    · refine h.own (x := .proc p) (k := .wait pid u n) ht rfl (fun i => ?_) hx
        (fun q hq => by simp [LifePc.Owns, LifePc.makes, LifePc.frees] at hq) (fun _ _ _ _ => rfl)
        (hgo _ (.inr rfl))
      exact ((calm_block (some (.of (.proc p))) hp).st i).imp_right And.left

end Stock

lemma Stock.quiet [DecidableEq C] (h : s.Stock) (ht : s.Threads) (hx : ∀ p, x = .proc p → s.st p = .running)
    (hown : ∀ q, ¬ k.Owns q) (htidy : k.Tidy) (hmine : ∀ f, k.Mine f → (s.pc x).Mine f) :
    (s.setPc x k).Stock := by
  have hk := h.holds ht hx
  refine h.own (x := x) (k := k) ht rfl (fun i => .inl rfl) hx (fun q hq => absurd hq (hown q))
    (fun _ _ _ _ => rfl) ⟨hk.exact, hk.stack, fun p f hp hf => hk.mine p f hp (hmine f hf), fun q f hq => ?_,
      fun q hq => ?_, htidy, fun _ q _ hq => ?_⟩
  · exact absurd hq (hown q)
  · exact absurd (.inl hq) (hown q)
  · exact absurd hq (hown q)

variable [DecidableEq C] {boot : C}

lemma Stock.swap (h : s.Stock) (ht : s.Threads) {n : ℕ} (hp : s.st p = .running)
    (hk : s.pc (.proc p) = .exit [] n) :
    Stock { s.setPc (.proc p) (.destroy n) with res := s.res.move (p, .mm) (p, .old) } := by
  have hx : ∀ p', Ctx.proc (C := C) p = .proc p' → s.st p' = .running := by
    intro p' hp'
    rw [← Ctx.proc.inj hp', hp]
  have hs := h.holds ht hx
  have hne : (p, Res.mm) ≠ (p, Res.old) := by simp
  have hmine : ∀ f, f = .old ∨ f = .img ∨ f ∈ exitOrder → s.res.held (p, f) = none := by
    intro f hf
    refine hs.mine p f rfl ?_
    rw [hk]
    exact hf.imp_right fun hf => hf.imp_right fun hf => ⟨hf, List.not_mem_nil⟩
  refine h.own (x := .proc p) (k := .destroy n) ht rfl (fun i => .inl rfl) hx
    (fun q hq => by simp [LifePc.Owns, LifePc.makes, LifePc.frees] at hq) (fun r f hr _ => ?_)
    ⟨hs.exact.move hne (hmine _ (.inl rfl)), fun q hq => ?_, fun q f hq hf => ?_, fun q f hq => ?_,
      fun q hq => ?_, trivial, fun _ q _ hq => ?_⟩
  · have hrp : r ≠ p := fun hrp => hr (congrArg _ hrp.symm)
    exact Ledger.move_of_ne (by simp [hrp]) (by simp [hrp])
  · obtain rfl := Ctx.proc.inj hq
    change (s.res.move (p, .mm) (p, .old)).held (p, .kstack) ≠ none
    rw [Ledger.move_of_ne (by simp) (by simp)]
    exact hs.stack p rfl
  · obtain rfl := Ctx.proc.inj hq
    change (s.res.move (p, .mm) (p, .old)).held (p, f) = none
    rw [Ledger.move_held hne]
    obtain ⟨hstack, hold⟩ := hf
    split_ifs with ho hm
    · exact absurd (Prod.mk.inj ho).2 hold
    · rfl
    · cases f with
      | file fd => exact hmine _ (.inr (.inr (mem_exitOrder.2 (.inl ⟨fd, rfl⟩))))
      | cwd => exact hmine _ (.inr (.inr (mem_exitOrder.2 (.inr rfl))))
      | img => exact hmine _ (.inr (.inl rfl))
      | kstack => exact absurd rfl hstack
      | mm => exact absurd rfl hm
      | old => exact absurd rfl ho
  all_goals simp [LifePc.Owns, LifePc.makes, LifePc.frees] at hq

lemma Stock.exec (h : s.Stock) (ht : s.Threads) (hp : s.st p = .running) (hk : s.pc (.proc p) = .load) :
    Stock { s.setPc (.proc p) .shed with
      res := (s.res.move (p, .mm) (p, .old)).move (p, .img) (p, .mm) } := by
  have hx : ∀ p', Ctx.proc (C := C) p = .proc p' → s.st p' = .running := by
    intro p' hp'
    rw [← Ctx.proc.inj hp', hp]
  have hs := h.holds ht hx
  have hold : s.res.held (p, .old) = none := hs.mine p _ rfl (by rw [hk]; rfl)
  have hmo : (p, Res.mm) ≠ (p, Res.old) := by simp
  have him : (p, Res.img) ≠ (p, Res.mm) := by simp
  refine h.own (x := .proc p) (k := .shed) ht rfl (fun i => .inl rfl) hx
    (fun q hq => by simp [LifePc.Owns, LifePc.makes, LifePc.frees] at hq) (fun r f hr _ => ?_)
    ⟨(hs.exact.move hmo hold).move him (Ledger.move_source hmo), fun q hq => ?_, fun q f hq hf => ?_,
      fun q f hq => ?_, fun q hq => ?_, trivial, fun _ q _ hq => ?_⟩
  · have hrp : r ≠ p := fun hrp => hr (congrArg _ hrp.symm)
    change ((s.res.move (p, .mm) (p, .old)).move (p, .img) (p, .mm)).held (r, f) = _
    rw [Ledger.move_of_ne (by simp [hrp]) (by simp [hrp]), Ledger.move_of_ne (by simp [hrp]) (by simp [hrp])]
  · obtain rfl := Ctx.proc.inj hq
    change ((s.res.move (p, .mm) (p, .old)).move (p, .img) (p, .mm)).held (p, .kstack) ≠ none
    rw [Ledger.move_of_ne (by simp) (by simp), Ledger.move_of_ne (by simp) (by simp)]
    exact hs.stack p rfl
  · obtain rfl := Ctx.proc.inj hq
    obtain rfl : f = .img := hf
    exact Ledger.move_source him
  all_goals simp [LifePc.Owns, LifePc.makes, LifePc.frees] at hq

lemma Step.stock (hs : Step boot s c t) (h : s.Stock) (hc : s.Cpus) (ht : s.Threads) : t.Stock := by
  have hidle : ∀ p, Ctx.idle c = .proc p → s.st p = .running := fun p hp => by simp at hp
  cases hs with
  | @move c x k l hx hm =>
    have hk := h.holds ht (hc.acts_st hx)
    exact h.own (x := x) (k := k) ht rfl (fun i => .inl rfl) (hc.acts_st hx) (fun q hq => hm.owns_of hq)
      (fun r f hr ho => hm.other hr ho) (hm.holds hk)
  | noneReady _ hu =>
    refine h.quiet ht hidle (fun q hq => ?_) trivial fun f hf => ?_
    · simp [LifePc.Owns, LifePc.makes, LifePc.frees] at hq
    · rw [hu]
      exact hf
  | pick _ _ _ hp => exact h.calm (calm_pick hp)
  | switchIn | switchOut | unlock => exact h.calm calm_refl.setCpu
  | resume => exact h.calm calm_chan.setCpu
  | yield hcp => exact h.calm (calm_ready (hc.run_st hcp)).setCpu
  | sleep hcp => exact h.calm (calm_block _ (hc.run_st hcp)).setCpu
  | stop hcp => exact h.calm (calm_stop (hc.run_st hcp))
  | wake _ hq => exact h.calm (calm_wake hq)
  | kill | setPgid => exact h.calm (calm_setProc rfl rfl rfl (.inl rfl))
  | @alloc c x q k hx hk hl hq =>
    refine h.alloc ht (hc.acts_st hx) (st_firstUnused hq) fun f hf => ?_
    obtain ⟨hk, rfl⟩ | ⟨-, hk, rfl⟩ | ⟨hk, rfl⟩ := hk
    all_goals
      rw [hk]
      exact hf
  | @noSlot c x hx hk =>
    refine h.quiet ht (hc.acts_st hx) (fun q hq => ?_) trivial fun f hf => ?_
    · simp [LifePc.Owns, LifePc.makes, LifePc.frees] at hq
    · rw [hk]
      exact hf
  | @undo c x q k hx hk hl =>
    refine h.done ht (x := x) (q := q) (k := failed k) rfl st_setState rfl (hc.acts_st hx) ?_ (fun f => ?_)
      (fun r hr => ?_) ?_ fun f hf => ?_
    · rw [hk]
      exact .inl rfl
    · rw [hk]
      trivial
    · cases k <;> simp [failed, LifePc.Owns, LifePc.makes, LifePc.frees] at hr
    · cases k <;> trivial
    · rw [hk]
      cases k <;> exact hf
  | @makeReady c x q hx hk hl => exact h.makeReady ht (hc.acts_st hx) hk
  | @wait c p pid u n w hcp hu hl => exact h.waitRound ht (hc.run_st hcp) fun f hf => by rw [hu]; exact hf
  | @waitAgain c p pid u n w hcp hw =>
    refine (h.calm calm_chan).waitRound (ht.calm calm_chan) ?_ fun f hf => ?_
    · rw [st_chan]
      exact hc.running c p (by rw [hcp]; rfl)
    · change (s.pc (.proc p)).Mine f
      rw [hw]
      exact hf
  | @reap c i hcp hk hl =>
    unfold reapRound
    split_ifs with hz
    · exact h.mark (x := .idle c) ht rfl (st_markDead (o := none)) rfl hidle hz.1 fun f hf => by
        rw [hk]
        exact hf
    · refine h.quiet ht hidle (fun q hq => ?_) trivial fun f hf => ?_
      · simp [LifePc.Owns, LifePc.makes, LifePc.frees] at hq
      · rw [hk]
        exact hf
  | @reaped c i hcp hk =>
    refine h.quiet ht hidle (fun q hq => ?_) trivial fun f hf => ?_
    · simp at hq
    · rw [hk]
      exact hf
  | @freed c x q b hx hk hl =>
    refine h.done ht (x := x) (q := q) (k := back b) rfl st_setState rfl (hc.acts_st hx) ?_ (fun f => ?_)
      (fun r hr => ?_) ?_ fun f hf => ?_
    · rw [hk]
      exact .inr rfl
    · rw [hk]
      exact List.not_mem_nil
    · cases b <;> simp [back, LifePc.Owns, LifePc.makes, LifePc.frees] at hr
    · cases b <;> trivial
    · rw [hk]
      cases b <;> exact hf
  | @swap c p n hcp hk => exact h.swap ht (hc.run_st hcp) hk
  | @exec c p hcp hk => exact h.exec ht (hc.run_st hcp) hk
  | @zombify c p n w hcp hk hl => exact h.zombify ht (hc.run_st hcp) hk

end Life

end MyOS.Proc
