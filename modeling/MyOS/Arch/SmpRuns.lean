import MyOS.Arch.SmpSteps

/-! No call of `tlb_shootdown` waits forever: the calls and the handlers that are on their way can always
go on, until every call has returned. -/

namespace MyOS.Arch

open Library Function

variable {C : Type}

/-- Steps of the calls on their way, of `process_inbox` and of `smp_init`'s count; a CPU outside of them
turns its interrupts on. -/
def SmpAction.GoesOn : SmpAction C → Prop
  | .invlpg _ | .check _ | .pushOff _ | .next _ | .post _ | .ret _ | .leave _ | .poll _ | .scan _
  | .answer _ | .count => True
  | .setInts _ b => b = true
  | _ => False

def Shootdown.work (k : Shootdown) : ℕ :=
  match k.pc with
  | .flush i => k.pages.toNat - i + maxCpus * (k.pages.toNat + 4) + 6
  | .counted => maxCpus * (k.pages.toNat + 4) + 5
  | .off _ _ (.loop i) => (maxCpus - i) * (k.pages.toNat + 4) + 4
  | .off _ _ (.post i) => (maxCpus - i) * (k.pages.toNat + 4) + 3
  | .off _ _ .wait => 2
  | .done => 1

namespace Smp

variable {s t : Smp C} {a : SmpAction C} {c d : C} {k : Shootdown}
  {i j m n me r : ℕ} {l : SendPc}

def pagesOf (s : Smp C) (r : ℕ) : ℕ := (s.frames r).elim 0 fun q => q.pages.toNat

def slotWork (s : Smp C) (i m : ℕ) : ℕ := (s.inbox i m).elim 0 fun r => s.pagesOf r + 2

def takenWork (s : Smp C) (i m : ℕ) : ℕ :=
  match (s.cpus i).bind s.handler with
  | some ⟨j, some (r, n)⟩ => if j = m then s.pagesOf r - n + 1 else 0
  | _ => 0

def callWork (s : Smp C) (m : ℕ) : ℕ := ((s.cpus m).bind s.call).elim 0 Shootdown.work

def rowWork (s : Smp C) (m : ℕ) : ℕ :=
  s.callWork m + ∑ i ∈ Finset.range maxCpus, (s.slotWork i m + s.takenWork i m)

def work (s : Smp C) : ℕ := ∑ m ∈ Finset.range maxCpus, s.rowWork m

lemma answers_of_goesOn (ha : a.GoesOn) : s.Answers a := by
  cases a <;> trivial

lemma work_lt (hm : m < maxCpus) (hlt : t.rowWork m < s.rowWork m)
    (hle : ∀ m', m' ≠ m → t.rowWork m' ≤ s.rowWork m') : t.work < s.work := by
  refine Finset.sum_lt_sum (fun m' _ => ?_) ⟨m, Finset.mem_range.2 hm, hlt⟩
  by_cases hmm : m' = m
  · rw [hmm]
    exact hlt.le
  · exact hle m' hmm

lemma slotWork_le (h : s.Mail) (hi : t.inbox i m = s.inbox i m)
    (hp : ∀ r, s.frames r ≠ none → t.pagesOf r ≤ s.pagesOf r) : t.slotWork i m ≤ s.slotWork i m := by
  unfold slotWork
  rw [hi]
  cases hr : s.inbox i m with
  | none => exact le_rfl
  | some r => exact Nat.add_le_add_right (hp r (h.frame_of_slot hr)) 2

lemma takenWork_eq (h : (s.cpus i).bind s.handler = some { s := j, req := some (r, n) }) :
    s.takenWork i m = if j = m then s.pagesOf r - n + 1 else 0 := by
  unfold takenWork
  rw [h]

lemma takenWork_idle (h : ∀ x, (s.cpus i).bind s.handler = some x → x.req = none) :
    s.takenWork i m = 0 := by
  unfold takenWork
  cases hx : (s.cpus i).bind s.handler with
  | none => rfl
  | some x =>
    obtain ⟨j, o⟩ := x
    obtain rfl : o = none := h _ hx
    rfl

lemma takenWork_le (h : s.Mail) (hi : (t.cpus i).bind t.handler = (s.cpus i).bind s.handler)
    (hp : ∀ r, s.frames r ≠ none → t.pagesOf r ≤ s.pagesOf r) : t.takenWork i m ≤ s.takenWork i m := by
  cases hx : (s.cpus i).bind s.handler with
  | none => exact (takenWork_idle fun x hx' => by simp [hi, hx] at hx').trans_le (Nat.zero_le _)
  | some x =>
    obtain ⟨j, o⟩ := x
    cases o with
    | none =>
      refine (takenWork_idle fun x hx' => ?_).trans_le (Nat.zero_le _)
      rw [hi, hx] at hx'
      rw [← Option.some.inj hx']
    | some y =>
      obtain ⟨r, n⟩ := y
      rw [takenWork_eq hx, takenWork_eq (hi.trans hx)]
      obtain ⟨d, -, hd⟩ := Option.bind_eq_some_iff.1 hx
      have hr : s.frames r ≠ none := h.frame_of_taken (d := d) (j := j) (by simp [taken, hd, InboxPc.taken])
      have := hp r hr
      split_ifs
      · omega
      · exact le_rfl

variable [DecidableEq C]

def Reaches (s t : Smp C) : Prop :=
  Relation.ReflTransGen (fun s t => ∃ a : SmpAction C, a.GoesOn ∧ Step s a t) s t

lemma Reaches.one (ha : a.GoesOn) (hs : Step s a t) : s.Reaches t :=
  Relation.ReflTransGen.single ⟨a, ha, hs⟩

lemma Reaches.step {u : Smp C} (ha : a.GoesOn) (hs : Step s a t) (h : t.Reaches u) : s.Reaches u :=
  Relation.ReflTransGen.head ⟨a, ha, hs⟩ h

lemma Reaches.sound (h : s.Reaches t) (hw : s.toPercpu.Wired) (hm : s.Mail) :
    t.toPercpu.Wired ∧ t.Mail := by
  induction h with
  | refl => exact ⟨hw, hm⟩
  | tail _ hst ih =>
    obtain ⟨a, ha, hst⟩ := hst
    exact ⟨hst.wired ih.1 (answers_of_goesOn ha), hst.mail ih.2 ih.1⟩

lemma work_setHandler_le {o : Option InboxPc} (ho : ∀ x, o = some x → x.req = none) :
    (s.setHandler c o).work ≤ s.work := by
  refine Finset.sum_le_sum fun m _ => Nat.add_le_add_left (Finset.sum_le_sum fun i _ => ?_) _
  refine Nat.add_le_add_left ?_ (s.slotWork i m)
  by_cases hi : s.cpus i = some c
  · refine (takenWork_idle fun x hx => ho x ?_).trans_le (Nat.zero_le _)
    change (s.cpus i).bind (update s.handler c o) = some x at hx
    rwa [hi, Option.bind_some, update_self] at hx
  · refine le_of_eq ?_
    have hbind : (s.cpus i).bind (s.setHandler c o).handler = (s.cpus i).bind s.handler := by
      cases hd : s.cpus i with
      | none => rfl
      | some d =>
        have hdc : d ≠ c := by
          rintro rfl
          exact hi hd
        exact update_of_ne hdc _ _
    unfold takenWork
    change (match (s.cpus i).bind (s.setHandler c o).handler with
      | some ⟨j, some (r, n)⟩ => if j = m then s.pagesOf r - n + 1 else 0
      | _ => 0) = _
    rw [hbind]

section Decrease

variable (hw : s.toPercpu.Wired) (hm : s.Mail)

include hw hm

omit [DecidableEq C] in
lemma running_of_call (hc : s.call c = some k) : s.running c = true :=
  hw.running c (hm.call c (by simp [hc]))

omit [DecidableEq C] in
lemma callWork_of_call (hc : s.call c = some k) : s.callWork (s.id c) = k.work := by
  unfold callWork
  rw [hw.here c (running_of_call hw hm hc), Option.bind_some, hc]
  rfl

lemma own_lt (hc : s.call c = some k) {o : Option Shootdown} (hcpu : t.toPercpu = s.toPercpu)
    (hcall : t.call = update s.call c o) (hh : t.handler = s.handler) (hi : t.inbox = s.inbox)
    (hp : ∀ r, s.frames r ≠ none → t.pagesOf r ≤ s.pagesOf r)
    (hlt : o.elim 0 Shootdown.work < k.work) : t.work < s.work := by
  have hrun := running_of_call hw hm hc
  have hsum : ∀ m, ∑ i ∈ Finset.range maxCpus, (t.slotWork i m + t.takenWork i m) ≤
      ∑ i ∈ Finset.range maxCpus, (s.slotWork i m + s.takenWork i m) := by
    intro m
    refine Finset.sum_le_sum fun i _ => Nat.add_le_add ?_ ?_
    · exact slotWork_le hm (by rw [hi]) hp
    · exact takenWork_le hm (by rw [hcpu, hh]) hp
  refine work_lt (hw.id_lt hrun) ?_ fun m' hm' => ?_
  · refine Nat.add_lt_add_of_lt_of_le ?_ (hsum _)
    rw [callWork_of_call hw hm hc]
    unfold callWork
    rw [hcpu, hw.here c hrun, Option.bind_some, hcall, update_self]
    exact hlt
  · refine Nat.add_le_add ?_ (hsum _)
    unfold callWork
    rw [hcpu, hcall]
    cases hd : s.cpus m' with
    | none => exact le_rfl
    | some d =>
      have hdc : d ≠ c := by
        rintro rfl
        exact hm' (hw.entry m' d hd).1.symm
      rw [Option.bind_some, Option.bind_some, update_of_ne hdc]

lemma post_lt (hc : s.call c = some k) (hk : k.pc = .off me r (.post i)) :
    (s.post c k me r i).work < s.work := by
  have hrun := running_of_call hw hm hc
  have hsc := sending_of_pc hc hk
  have hfree := hm.slot_free hw hsc
  obtain ⟨q, hq, -, hps, -⟩ := hm.frame c k me r _ hc hk
  have hpages : s.pagesOf r = k.pages.toNat := by simp [pagesOf, hq, hps]
  have hme := hm.me c me r _ hsc
  have hslot : ∀ j m, (s.post c k me r i).slotWork j m =
      if j = i ∧ m = me then s.pagesOf r + 2 else s.slotWork j m := by
    intro j m
    unfold slotWork
    have hin : (s.post c k me r i).inbox j m = if j = i ∧ m = me then some r else s.inbox j m :=
      setSlot_inbox
    rw [hin]
    split_ifs <;> rfl
  have htaken : ∀ j m, (s.post c k me r i).takenWork j m = s.takenWork j m := fun _ _ => rfl
  refine work_lt (hw.id_lt hrun) ?_ fun m' hm' => Nat.add_le_add ?_ (Finset.sum_le_sum fun j _ => ?_)
  · have hsum : ∑ j ∈ Finset.range maxCpus, ((s.post c k me r i).slotWork j (s.id c) +
        (s.post c k me r i).takenWork j (s.id c)) ≤
        ∑ j ∈ Finset.range maxCpus, (s.slotWork j (s.id c) + s.takenWork j (s.id c)) +
          (s.pagesOf r + 2) := by
      have hone : ∑ j ∈ Finset.range maxCpus, (if j = i then s.pagesOf r + 2 else 0) ≤ s.pagesOf r + 2 := by
        rw [Finset.sum_ite_eq']
        split_ifs
        · exact le_rfl
        · exact Nat.zero_le _
      refine le_trans ?_ (Nat.add_le_add_left hone _)
      rw [← Finset.sum_add_distrib]
      refine Finset.sum_le_sum fun j _ => ?_
      rw [hslot, htaken]
      split_ifs <;> omega
    have hwork : (s.post c k me r i).callWork (s.id c) =
        (maxCpus - (i + 1)) * (k.pages.toNat + 4) + 4 := by
      unfold callWork
      have hcpus : (s.post c k me r i).cpus (s.id c) = some c := hw.here c hrun
      have hcall : (s.post c k me r i).call c = some { k with pc := .off me r (.loop (i + 1)) } :=
        update_self _ _ _
      rw [hcpus, Option.bind_some, hcall]
      rfl
    have hlt : i < maxCpus := (hm.asked c me r i hsc).1.trans_le hw.le_max
    have hold : k.work = (maxCpus - i) * (k.pages.toNat + 4) + 3 := by
      unfold Shootdown.work
      rw [hk]
    have hmul : (maxCpus - i) * (k.pages.toNat + 4) =
        (maxCpus - (i + 1)) * (k.pages.toNat + 4) + (k.pages.toNat + 4) := by
      rw [show maxCpus - i = maxCpus - (i + 1) + 1 by omega, Nat.succ_mul]
    unfold rowWork
    rw [callWork_of_call hw hm hc, hwork, hold]
    omega
  · unfold callWork
    change ((s.cpus m').bind (update s.call c _)).elim 0 Shootdown.work ≤ _
    cases hd : s.cpus m' with
    | none => exact le_rfl
    | some d =>
      have hdc : d ≠ c := by
        rintro rfl
        exact hm' (hw.entry m' d hd).1.symm
      rw [Option.bind_some, Option.bind_some, update_of_ne hdc]
  · rw [hslot, htaken, if_neg]
    rintro ⟨-, rfl⟩
    exact hm' hme

lemma own_step (hc : s.call c = some k) (hh : s.handler c = none) :
    (∃ t, s.Reaches t ∧ t.work < s.work) ∨ s.Waits c := by
  have hsame : ∀ r, s.frames r ≠ none → s.pagesOf r ≤ s.pagesOf r := fun _ _ => le_rfl
  cases hk : k.pc with
  | flush i =>
    left
    by_cases hi : i < k.pages.toNat
    · refine ⟨_, Reaches.one (a := .invlpg c) trivial (Step.invlpg hc hh hk hi), ?_⟩
      refine own_lt hw hm hc rfl rfl rfl rfl hsame ?_
      simp only [Option.elim_some, Shootdown.work, hk]
      omega
    · refine ⟨_, Reaches.one (a := .check c) trivial (Step.check hc hh hk (not_lt.1 hi)), ?_⟩
      refine own_lt hw hm hc rfl rfl rfl rfl hsame ?_
      simp only [Option.elim_some, Shootdown.work, hk]
      split_ifs
      · dsimp only
        omega
      · dsimp only
        omega
  | counted =>
    left
    refine ⟨_, Reaches.one (a := .pushOff c) trivial (Step.pushOff hc hh hk), ?_⟩
    refine own_lt hw hm hc rfl rfl rfl rfl (fun r hr => ?_) ?_
    · have hne : r ≠ s.nframes := (hm.fresh r hr).ne
      simp [pagesOf, pushOff, hne]
    · simp only [Option.elim_some, Shootdown.work, hk, Nat.sub_zero]
      omega
  | off me r l =>
    cases l with
    | loop i =>
      left
      refine ⟨_, Reaches.one (a := .next c) trivial (Step.next hc hk), ?_⟩
      unfold Smp.next
      split_ifs with hn
      · refine own_lt hw hm hc rfl rfl rfl rfl hsame ?_
        simp only [Option.elim_some, Shootdown.work, hk]
        omega
      · refine own_lt hw hm hc rfl rfl rfl rfl hsame ?_
        simp only [Option.elim_some, Shootdown.work, hk]
        have hlt : i < maxCpus := (not_le.1 hn).trans_le hw.le_max
        rw [show maxCpus - i = maxCpus - (i + 1) + 1 by omega, Nat.succ_mul]
        omega
      · refine own_lt hw hm hc rfl rfl rfl rfl (fun r' _ => ?_) ?_
        · change ((update s.frames r _) r').elim 0 _ ≤ _
          by_cases hr : r' = r
          · subst hr
            rw [update_self]
            unfold pagesOf
            cases s.frames r' <;> exact le_rfl
          · rw [update_of_ne hr]
            exact le_rfl
        · simp only [Option.elim_some, Shootdown.work, hk]
          omega
    | post i =>
      left
      exact ⟨_, Reaches.one (a := .post c) trivial (Step.post hc hk), post_lt hw hm hc hk⟩
    | wait =>
      obtain ⟨q, hq, -⟩ := hm.frame c k me r _ hc hk
      by_cases hp : q.pending = 0
      · left
        refine ⟨_, Reaches.one (a := .ret c) trivial (Step.ret hc hh hk hq hp), ?_⟩
        refine own_lt hw hm hc rfl rfl rfl rfl (fun r' _ => ?_) ?_
        · change ((update s.frames r _) r').elim 0 _ ≤ _
          by_cases hr : r' = r
          · rw [hr, update_self]
            exact Nat.zero_le _
          · rw [update_of_ne hr]
            exact le_rfl
        · simp [Shootdown.work, hk]
      · exact .inr ⟨k, me, r, q, hc, hk, hq, Nat.pos_of_ne_zero hp⟩
  | done =>
    left
    refine ⟨_, Reaches.one (a := .leave c) trivial (Step.leave hc hh hk), ?_⟩
    refine own_lt hw hm hc rfl rfl rfl rfl hsame ?_
    simp [Shootdown.work, hk]

omit [DecidableEq C] in
lemma handler_lt (hc : s.running c = true) (hj : j < maxCpus) (hcpu : t.toPercpu = s.toPercpu)
    (hcall : t.call = s.call) (hh : ∀ d, d ≠ c → t.handler d = s.handler d)
    (hi : ∀ i m, (i, m) ≠ (s.id c, j) → t.inbox i m = s.inbox i m)
    (hp : ∀ r, s.frames r ≠ none → t.pagesOf r ≤ s.pagesOf r)
    (hm' : ∀ m, m ≠ j → t.takenWork (s.id c) m ≤ s.takenWork (s.id c) m)
    (hlt : t.slotWork (s.id c) j + t.takenWork (s.id c) j <
      s.slotWork (s.id c) j + s.takenWork (s.id c) j) : t.work < s.work := by
  have hcalls : ∀ m, t.callWork m = s.callWork m := by
    intro m
    unfold callWork
    rw [hcpu, hcall]
  have hle : ∀ i m, (i, m) ≠ (s.id c, j) →
      t.slotWork i m + t.takenWork i m ≤ s.slotWork i m + s.takenWork i m := by
    intro i m hne
    refine Nat.add_le_add (slotWork_le hm (hi i m hne) hp) ?_
    by_cases hic : i = s.id c
    · subst hic
      exact hm' m fun hmj => hne (by rw [hmj])
    · refine takenWork_le hm ?_ hp
      rw [hcpu]
      cases hd : s.cpus i with
      | none => rfl
      | some d =>
        have hdc : d ≠ c := by
          rintro rfl
          exact hic (hw.entry i d hd).1.symm
        rw [Option.bind_some, Option.bind_some, hh d hdc]
  refine work_lt hj ?_ fun m hmj => ?_
  · unfold rowWork
    rw [hcalls]
    refine Nat.add_lt_add_left (Finset.sum_lt_sum (fun i _ => ?_) ⟨s.id c, ?_, hlt⟩) _
    · by_cases hic : i = s.id c
      · rw [hic]
        exact hlt.le
      · exact hle i j fun he => hic (Prod.ext_iff.1 he).1
    · exact Finset.mem_range.2 (hw.id_lt hc)
  · unfold rowWork
    rw [hcalls]
    exact Nat.add_le_add_left (Finset.sum_le_sum fun i _ =>
      hle i m fun he => hmj (Prod.ext_iff.1 he).2) _

omit [DecidableEq C] in
lemma sender_lt (hs : s.sending c = some (me, r, l)) : me < maxCpus := by
  rw [hm.me c me r l hs]
  exact hw.id_lt (hm.running_of_sending hw hs)

lemma take_lt (hh : s.handler c = some { s := j }) (hin : s.inbox (s.id c) j = some r) :
    ((s.setSlot (s.id c) j none).setHandler c (some { s := j, req := some (r, 0) })).work < s.work := by
  have hc : s.running c = true := hm.handler c (by simp [hh])
  obtain ⟨-, d, l, hd, -⟩ := hm.slot _ j r hin
  have hbind : ∀ u : Smp C, u.toPercpu = s.toPercpu → (u.cpus (s.id c)).bind u.handler = u.handler c := by
    intro u hu
    rw [hu, hw.here c hc]
    rfl
  have htaken : ∀ m, ((s.setSlot (s.id c) j none).setHandler c
      (some { s := j, req := some (r, 0) })).takenWork (s.id c) m =
        if j = m then s.pagesOf r - 0 + 1 else 0 := by
    intro m
    refine takenWork_eq ((hbind _ ?_).trans ?_)
    · rfl
    · exact update_self _ _ _
  refine handler_lt hw hm hc (sender_lt hw hm hd) rfl rfl (fun d hd => update_of_ne hd _ _)
    (fun i m hne => ?_) (fun _ _ => le_rfl) (fun m hmj => ?_) ?_
  · exact setSlot_inbox.trans (if_neg fun he => hne (Prod.ext he.1 he.2))
  · rw [htaken, if_neg hmj.symm]
    exact Nat.zero_le _
  · rw [htaken, if_pos rfl]
    have hslot : ((s.setSlot (s.id c) j none).setHandler c
        (some { s := j, req := some (r, 0) })).slotWork (s.id c) j = 0 := by
      unfold slotWork
      have hnone : ((s.setSlot (s.id c) j none).setHandler c
          (some { s := j, req := some (r, 0) })).inbox (s.id c) j = none :=
        setSlot_inbox.trans (if_pos ⟨rfl, rfl⟩)
      rw [hnone]
      rfl
    have hslot' : s.slotWork (s.id c) j = s.pagesOf r + 2 := by
      unfold slotWork
      rw [hin]
      rfl
    rw [hslot, hslot']
    omega

lemma answer_lt {q : TlbReq} (hh : s.handler c = some { s := j, req := some (r, n) })
    (hr : s.frames r = some q) : (s.answer c j r n q).work < s.work := by
  have hc : s.running c = true := hm.handler c (by simp [hh])
  obtain ⟨d, l, hd, -⟩ := hm.taken c j r (by simp [taken, hh, InboxPc.taken])
  have hpages : s.pagesOf r = q.pages.toNat := by simp [pagesOf, hr]
  have hold : ∀ m, s.takenWork (s.id c) m = if j = m then s.pagesOf r - n + 1 else 0 := by
    intro m
    refine takenWork_eq ?_
    rw [hw.here c hc]
    exact hh
  unfold Smp.answer
  split_ifs with hn
  · have htaken : ∀ m, ((s.setTlb c (pageOf q.virt n) none).setHandler c
        (some { s := j, req := some (r, n + 1) })).takenWork (s.id c) m =
          if j = m then s.pagesOf r - (n + 1) + 1 else 0 := by
      intro m
      refine takenWork_eq ?_
      change (s.cpus (s.id c)).bind (update s.handler c _) = _
      rw [hw.here c hc]
      exact update_self _ _ _
    refine handler_lt hw hm hc (sender_lt hw hm hd) rfl rfl (fun d hd => update_of_ne hd _ _)
      (fun i m hne => rfl) (fun _ _ => le_rfl) (fun m hmj => ?_) ?_
    · rw [htaken, if_neg hmj.symm]
      exact Nat.zero_le _
    · rw [htaken, hold, if_pos rfl, if_pos rfl, hpages]
      exact Nat.add_lt_add_left (by omega) _
  · have hfr : ∀ r', ((s.setPending r (· - 1)).setHandler c (some { s := j + 1 })).pagesOf r' =
        s.pagesOf r' := by
      intro r'
      change ((update s.frames r _) r').elim 0 _ = _
      by_cases hr' : r' = r
      · rw [hr', update_self, hr]
        simp [pagesOf, hr]
      · rw [update_of_ne hr']
        rfl
    have htaken : ∀ m, ((s.setPending r (· - 1)).setHandler c (some { s := j + 1 })).takenWork
        (s.id c) m = 0 := by
      intro m
      refine takenWork_idle fun x hx => ?_
      change (s.cpus (s.id c)).bind (update s.handler c _) = _ at hx
      rw [hw.here c hc, Option.bind_some, update_self] at hx
      rw [← Option.some.inj hx]
    refine handler_lt hw hm hc (sender_lt hw hm hd) rfl rfl (fun d hd => update_of_ne hd _ _)
      (fun i m hne => rfl) (fun r' _ => (hfr r').le) (fun m hmj => ?_) ?_
    · rw [htaken]
      exact Nat.zero_le _
    · rw [htaken, hold, if_pos rfl]
      have hslot : ((s.setPending r (· - 1)).setHandler c (some { s := j + 1 })).slotWork (s.id c) j ≤
          s.slotWork (s.id c) j := slotWork_le hm rfl fun r' _ => (hfr r').le
      omega

lemma drain {x : InboxPc} (hh : s.handler c = some x) :
    ∃ t, s.Reaches t ∧ (t.work < s.work ∨ t = s.setHandler c none) := by
  obtain ⟨j, o⟩ := x
  cases o with
  | some y =>
    obtain ⟨r, n⟩ := y
    obtain ⟨q, hq⟩ := Option.ne_none_iff_exists'.1
      (hm.frame_of_taken (d := c) (j := j) (r := r) (by simp [taken, hh, InboxPc.taken]))
    exact ⟨_, Reaches.one (a := .answer c) trivial (Step.answer hh hq), .inl (answer_lt hw hm hh hq)⟩
  | none =>
    -- by the slots that are left
    induction hd : s.ncpus - j generalizing s j with
    | zero =>
      refine ⟨_, Reaches.one (a := .scan c) trivial (Step.scan hh), .inr ?_⟩
      exact if_pos (by omega)
    | succ e ih =>
      have hn : ¬ s.ncpus ≤ j := by omega
      cases hin : s.inbox (s.id c) j with
      | some r =>
        refine ⟨_, Reaches.one (a := .scan c) trivial (Step.scan hh), .inl ?_⟩
        unfold Smp.scan
        rw [if_neg hn, hin]
        exact take_lt hw hm hh hin
      | none =>
        have hscan : s.scan c j = s.setHandler c (some { s := j + 1 }) := by
          unfold Smp.scan
          rw [if_neg hn, hin]
        have hst : Step s (.scan c) (s.setHandler c (some { s := j + 1 })) := hscan ▸ Step.scan hh
        have hset : (s.setHandler c (some { s := j + 1 })).work ≤ s.work :=
          work_setHandler_le fun x hx => by rw [← Option.some.inj hx]
        obtain ⟨t, ht, hlt⟩ := ih (s := s.setHandler c (some { s := j + 1 })) hw (hst.mail hm hw) (j + 1)
          (update_self _ _ _) (by change s.ncpus - (j + 1) = e; omega)
        refine ⟨t, Reaches.step (a := .scan c) trivial hst ht, ?_⟩
        obtain hlt | rfl := hlt
        · exact .inl (hlt.trans_le hset)
        · right
          simp [Smp.setHandler]

lemma scan_to (hh : s.handler c = some { s := j }) (hj : j ≤ m) (hlt : m < s.ncpus)
    (hin : s.inbox (s.id c) m = some r) : ∃ t, s.Reaches t ∧ t.work < s.work := by
  induction hd : m - j generalizing s j with
  | zero =>
    have hjm : j = m := by omega
    subst hjm
    refine ⟨_, Reaches.one (a := .scan c) trivial (Step.scan hh), ?_⟩
    unfold Smp.scan
    rw [if_neg (not_le.2 hlt), hin]
    exact take_lt hw hm hh hin
  | succ e ih =>
    have hn : ¬ s.ncpus ≤ j := by omega
    cases hj' : s.inbox (s.id c) j with
    | some r' =>
      refine ⟨_, Reaches.one (a := .scan c) trivial (Step.scan hh), ?_⟩
      unfold Smp.scan
      rw [if_neg hn, hj']
      exact take_lt hw hm hh hj'
    | none =>
      have hscan : s.scan c j = s.setHandler c (some { s := j + 1 }) := by
        unfold Smp.scan
        rw [if_neg hn, hj']
      have hst : Step s (.scan c) (s.setHandler c (some { s := j + 1 })) := hscan ▸ Step.scan hh
      have hset : (s.setHandler c (some { s := j + 1 })).work ≤ s.work :=
        work_setHandler_le fun x hx => by rw [← Option.some.inj hx]
      obtain ⟨t, ht, hlt'⟩ := ih (s := s.setHandler c (some { s := j + 1 })) hw (hst.mail hm hw)
        (update_self _ _ _) (by omega) hlt hin (by omega)
      exact ⟨t, Reaches.step (a := .scan c) trivial hst ht, hlt'.trans_le hset⟩

lemma polled (hc : s.running c = true) (hh : s.handler c = none) (hp : s.ints c = true ∨ s.Waits c)
    (hlt : m < s.ncpus) (hin : s.inbox (s.id c) m = some r) :
    ∃ t, s.Reaches t ∧ t.work < s.work := by
  have hst : Step s (.poll c) (s.setHandler c (some {})) := Step.poll hc hh hp
  obtain ⟨t, ht, hlt'⟩ := scan_to (s := s.setHandler c (some {})) (c := c) (j := 0) hw (hst.mail hm hw)
    (update_self _ _ _) (Nat.zero_le m) hlt hin
  refine ⟨t, Reaches.step (a := .poll c) trivial hst ht, hlt'.trans_le ?_⟩
  exact work_setHandler_le fun x hx => by rw [← Option.some.inj hx]

lemma delivered_idle (hc : s.running c = true) (hh : s.handler c = none) (hlt : m < s.ncpus)
    (hin : s.inbox (s.id c) m = some r) : ∃ t, s.Reaches t ∧ t.work < s.work := by
  cases hk : s.call c with
  | some k =>
    obtain hstep | hwait := own_step hw hm hk hh
    · exact hstep
    · exact polled hw hm hc hh (.inr hwait) hlt hin
  | none =>
    have hst : Step s (.setInts c true) (s.setInts c true) := Step.setInts hk hh
    obtain ⟨t, ht, hlt'⟩ := polled (s := s.setInts c true) (c := c) hw (hst.mail hm hw) hc hh
      (.inl (update_self _ _ _)) hlt hin
    exact ⟨t, Reaches.step (a := .setInts c true) rfl hst ht, hlt'⟩

lemma delivered (hc : s.running c = true) (hlt : m < s.ncpus) (hin : s.inbox (s.id c) m = some r) :
    ∃ t, s.Reaches t ∧ t.work < s.work := by
  cases hh : s.handler c with
  | none => exact delivered_idle hw hm hc hh hlt hin
  | some x =>
    obtain ⟨t, ht, hlt' | rfl⟩ := drain hw hm hh
    · exact ⟨t, ht, hlt'⟩
    · obtain ⟨hw', hm'⟩ := ht.sound hw hm
      obtain ⟨u, hu, hlt'⟩ := delivered_idle (s := s.setHandler c none) (c := c) hw' hm' hc
        (update_self _ _ _) hlt hin
      exact ⟨u, ht.trans hu, hlt'.trans_le (work_setHandler_le fun x hx => by simp at hx)⟩

lemma waits_step (hc : s.Waits c) (hlt : s.id c < s.ncpus) : ∃ t, s.Reaches t ∧ t.work < s.work := by
  obtain ⟨k, me, r, q, hk, hpc, hq, hpos⟩ := hc
  have hsc := sending_of_pc hk hpc
  obtain ⟨q', hq', -, -, hnum⟩ := hm.frame c k me r _ hk hpc
  rw [hq] at hq'
  rw [← Option.some.inj hq'] at hnum
  obtain ⟨i, ⟨m, hin⟩ | ⟨d, j, -, htk⟩ | ⟨d, me', hpost⟩⟩ := hnum.exists_of_pos hpos
  · obtain ⟨hi, d, l, hd, -⟩ := hm.slot i m r hin
    obtain rfl := hm.sole c d _ _ _ _ _ hsc hd
    have hmc : m < s.ncpus := by
      rw [hm.me c m r l hd]
      exact hlt
    obtain ⟨e, he, ho⟩ := hw.counted i hi
    obtain ⟨rfl, -⟩ := hw.entry i e he
    exact delivered hw hm (hw.running e ho) hmc hin
  · cases hh : s.handler d with
    | none => exact absurd hh (handler_of_taken htk)
    | some x =>
      obtain ⟨j', o⟩ := x
      cases o with
      | none => simp [taken, hh, InboxPc.taken] at htk
      | some y =>
        obtain ⟨r', n⟩ := y
        obtain ⟨q', hq'⟩ := Option.ne_none_iff_exists'.1
          (hm.frame_of_taken (d := d) (j := j') (r := r') (by simp [taken, hh, InboxPc.taken]))
        exact ⟨_, Reaches.one (a := .answer d) trivial (Step.answer hh hq'), answer_lt hw hm hh hq'⟩
  · obtain rfl := hm.sole c d _ _ _ _ _ hsc hpost
    rw [hsc] at hpost
    simp at hpost

lemma counted_step (hk : s.call c = some k) (hlt : s.id c < s.ncpus) :
    ∃ t, s.Reaches t ∧ t.work < s.work := by
  cases hh : s.handler c with
  | none =>
    obtain hstep | hwait := own_step hw hm hk hh
    · exact hstep
    · exact waits_step hw hm hwait hlt
  | some x =>
    obtain ⟨t, ht, hlt' | rfl⟩ := drain hw hm hh
    · exact ⟨t, ht, hlt'⟩
    · obtain ⟨hw', hm'⟩ := ht.sound hw hm
      have hle : (s.setHandler c none).work ≤ s.work := work_setHandler_le fun x hx => by simp at hx
      obtain ⟨u, hu, hlt'⟩ | hwait :=
        own_step (s := s.setHandler c none) (c := c) hw' hm' hk (update_self _ _ _)
      · exact ⟨u, ht.trans hu, hlt'.trans_le hle⟩
      · obtain ⟨u, hu, hlt'⟩ := waits_step hw' hm' hwait hlt
        exact ⟨u, ht.trans hu, hlt'.trans_le hle⟩

lemma call_step (hk : s.call c = some k) : ∃ t, s.Reaches t ∧ t.work < s.work := by
  by_cases hlt : s.id c < s.ncpus
  · exact counted_step hw hm hk hlt
  · have hon := hm.call c (by simp [hk])
    obtain ⟨-, -, hlt' | ⟨hid, hwake⟩⟩ := hw.entry _ c (hw.here c (hw.running c hon))
    · exact absurd hlt' hlt
    · obtain ⟨b, hb, -⟩ := hw.counted 0 hw.one_le
      cases hbc : s.call b with
      | some kb =>
        refine counted_step hw hm hbc ?_
        rw [(hw.entry 0 b hb).1]
        exact hw.one_le
      | none =>
        have hboot : s.Booting := by
          intro b' hb'
          rw [hb] at hb'
          rw [← Option.some.inj hb', hbc]
        have hst := Step.count hboot hwake hon
        obtain ⟨hw', hm'⟩ := (Reaches.one (a := .count) trivial hst).sound hw hm
        obtain ⟨t, ht, hlt'⟩ := counted_step hw' hm' hk (by
          change s.id c < s.ncpus + 1
          omega)
        exact ⟨t, Reaches.step (a := .count) trivial hst ht, hlt'⟩

lemma all_return : ∃ t, s.Reaches t ∧ ∀ c, t.call c = none := by
  induction hn : s.work using Nat.strong_induction_on generalizing s with
  | _ n ih =>
    by_cases hall : ∀ c, s.call c = none
    · exact ⟨s, Relation.ReflTransGen.refl, hall⟩
    · push Not at hall
      obtain ⟨c, hc⟩ := hall
      obtain ⟨k, hk⟩ := Option.ne_none_iff_exists'.1 hc
      obtain ⟨t, ht, hlt⟩ := call_step hw hm hk
      obtain ⟨hw', hm'⟩ := ht.sound hw hm
      obtain ⟨u, hu, hnone⟩ := ih t.work (hn ▸ hlt) hw' hm' rfl
      exact ⟨u, ht.trans hu, hnone⟩

end Decrease

end Smp

end MyOS.Arch

/-! The TLB shootdown over whole runs. -/

namespace MyOS.Arch

open Library

namespace Smp

variable {C : Type} [DecidableEq C] {s : Smp C} {bsp : C}

structure ShootdownSafe (s : Smp C) : Prop where
  flushed : ∀ c k, s.call c = some k → k.pc = .done → ∀ d, s.online d = true →
    ∀ i < k.pages.toNat, ¬ s.Stale d (k.page i) k.since
  posted : ∀ i m r, s.inbox i m = some r → s.frames r ≠ none
  taken : ∀ d j r n, s.handler d = some { s := j, req := some (r, n) } → s.frames r ≠ none
  returns : ∃ t, s.Reaches t ∧ ∀ c, t.call c = none

def Allowed (s : Smp C) (a : SmpAction C) : Prop := s.Answers a ∧ s.Looks a

structure Sound (s : Smp C) : Prop where
  wired : s.toPercpu.Wired
  mail : s.Mail
  flushed : s.Flushed

lemma wired_initial : (initial bsp).toPercpu.Wired := by
  have hcpu : ∀ i d, (initial bsp).cpus i = some d → i = 0 ∧ d = bsp := by
    intro i d hd
    unfold initial at hd
    by_cases hi : i = 0
    · subst hi
      exact ⟨rfl, by simpa using hd.symm⟩
    · simp [hi] at hd
  have hrun : ∀ d, decide (d = bsp) = true → d = bsp := fun d hd => of_decide_eq_true hd
  have hzero : (initial bsp).cpus 0 = some bsp := by simp [initial]
  refine ⟨le_rfl, (by decide : 1 ≤ maxCpus), fun i d hd => ?_, fun d hd => ?_, fun i hi => ?_, fun d hd => hd, ?_⟩
  · obtain ⟨rfl, rfl⟩ := hcpu i d hd
    exact ⟨rfl, decide_eq_true rfl, .inl Nat.zero_lt_one⟩
  · obtain rfl := hrun d hd
    exact hzero
  · obtain rfl : i = 0 := Nat.lt_one_iff.1 hi
    exact ⟨bsp, hzero, decide_eq_true rfl⟩
  · intro d hd
    simp [initial] at hd

lemma sound_initial : (initial bsp).Sound := by
  refine ⟨wired_initial, ?_, ?_⟩
  · constructor <;> simp [initial, sending, Smp.taken]
  · constructor <;> simp [initial]

theorem tlb_shootdown_safe (h : ((system bsp).guarded Allowed).Reachable s) : s.ShootdownSafe := by
  have hs : s.Sound := by
    refine h.invariant ?_ ?_
    · rintro s rfl
      exact sound_initial
    · rintro s a t hs ⟨ha, hst⟩
      exact ⟨hst.wired hs.wired ha.1, hst.mail hs.mail hs.wired, hst.flushed hs.flushed hs.wired hs.mail ha.2⟩
  constructor
  · intro c k hk hpc d hd i hi
    exact (hs.flushed.call c k hk).done hpc d (hs.wired.running d hd) i hi hi
  · exact fun i m r hm => hs.mail.frame_of_slot hm
  · intro d j r n hh
    refine hs.mail.frame_of_taken (d := d) (j := j) ?_
    simp [Smp.taken, hh, InboxPc.taken]
  · exact all_return hs.wired hs.mail

def cached : Smp Bool :=
  let woken := (initial false).start true
  let up := { woken with running := Function.update woken.running true true }
  let online := { up with online := Function.update up.online true true }
  let counted := { online with ncpus := online.ncpus + 1, waking := none }
  (((counted.map 5).setTlb true 5 (some 0)).unmap 5).setInts false true

lemma reachable_cached : ((system false).guarded Allowed).Reachable cached := by
  refine .step (.setInts false true) ?_ ⟨⟨trivial, trivial⟩, Step.setInts rfl rfl⟩
  refine .step (.unmap 5) ?_ ⟨⟨trivial, trivial⟩, Step.unmap⟩
  refine .step (.fill true 5) ?_ ⟨⟨trivial, trivial⟩, Step.fill rfl rfl⟩
  refine .step (.map 5) ?_ ⟨⟨trivial, trivial⟩, Step.map⟩
  refine .step .count ?_ ⟨⟨trivial, trivial⟩, Step.count (fun b _ => rfl) rfl rfl⟩
  refine .step (.goOnline true) ?_ ⟨⟨trivial, trivial⟩, Step.goOnline rfl⟩
  refine .step (.comeUp true) ?_ ⟨⟨?_, trivial⟩, Step.comeUp rfl rfl⟩
  swap
  · exact (rfl : some true = some true)
  refine .step (.start true) ?_ ⟨⟨trivial, trivial⟩, Step.start (fun b _ => rfl) rfl (by decide) rfl⟩
  exact .init rfl

def shot : Shootdown where
  virt := 5 * 4096
  pages := 1
  since := 1

def flushed : Smp Bool :=
  (cached.setCall false (some shot)).setTlb false 5 none |>.setPc false shot (.flush 1)

lemma page_shot : shot.page 0 = 5 := by decide

lemma reachable_flushed : ((system false).guarded Allowed).Reachable flushed := by
  refine .step (.invlpg false) ?_ ⟨⟨trivial, trivial⟩, Step.invlpg (k := shot) rfl rfl rfl (by decide)⟩
  refine .step (.enter false _ _) reachable_cached ⟨⟨trivial, trivial⟩, Step.enter rfl rfl rfl ?_⟩
  intro i hi
  have hi0 : i = 0 := Nat.lt_one_iff.1 hi
  subst hi0
  exact congrArg cached.pte page_shot

def shotAt (me : ℕ) (l : SendPc) : Shootdown := { shot with intena := true, pc := .off me 0 l }

def sent : Smp Bool :=
  ((((flushed.check false { shot with pc := .flush 1 }).pushOff false
    { shot with pc := .counted }).next false (shotAt 0 (.loop 0)) 0 0 0).next false
    (shotAt 0 (.loop 1)) 0 0 1).post false (shotAt 0 (.post 1)) 0 0 1

def answered : Smp Bool :=
  let waiting := (sent.next false (shotAt 0 (.loop 2)) 0 0 2).setInts true true
  let taken := (waiting.setHandler true (some {})).scan true 0
  let done := ((taken.answer true 0 0 0 { virt := shot.virt, pages := shot.pages, pending := 1 }).answer
    true 0 0 1 { virt := shot.virt, pages := shot.pages, pending := 1 }).scan true 1
  (done.scan true 2).ret false (shotAt 0 .wait) 0

lemma looks_next {s : Smp Bool} {l : ℕ} (hk : s.call false = some (shotAt 0 (.loop l)))
    (h : s.ncpus ≤ l → ∀ d, s.id d < s.ncpus) : s.Looks (.next false) := by
  intro k me r i hk' hpc hn d _ hd
  rw [hk] at hk'
  cases hk'
  simp only [shotAt, ShootPc.off.injEq, SendPc.loop.injEq] at hpc
  exact absurd hd (not_le.2 (h (hpc.2.2 ▸ hn) d))

lemma reachable_sent : ((system false).guarded Allowed).Reachable sent := by
  refine .step (.post false) ?_ ⟨⟨trivial, trivial⟩, Step.post rfl rfl⟩
  refine .step (.next false) ?_ ⟨⟨trivial, looks_next rfl (by decide)⟩, Step.next rfl rfl⟩
  refine .step (.next false) ?_ ⟨⟨trivial, looks_next rfl (by decide)⟩, Step.next rfl rfl⟩
  refine .step (.pushOff false) ?_ ⟨⟨trivial, trivial⟩, Step.pushOff rfl rfl rfl⟩
  refine .step (.check false) reachable_flushed ⟨⟨trivial, ?_⟩, Step.check rfl rfl rfl (by decide)⟩
  exact fun hn => absurd hn (by decide)

lemma reachable_answered : ((system false).guarded Allowed).Reachable answered := by
  refine .step (.ret false) ?_ ⟨⟨trivial, trivial⟩, Step.ret rfl rfl rfl rfl rfl⟩
  refine .step (.scan true) ?_ ⟨⟨trivial, trivial⟩, Step.scan rfl⟩
  refine .step (.scan true) ?_ ⟨⟨trivial, trivial⟩, Step.scan rfl⟩
  refine .step (.answer true) ?_ ⟨⟨trivial, trivial⟩, Step.answer rfl rfl⟩
  refine .step (.answer true) ?_ ⟨⟨trivial, trivial⟩, Step.answer rfl rfl⟩
  refine .step (.scan true) ?_ ⟨⟨trivial, trivial⟩, Step.scan rfl⟩
  refine .step (.poll true) ?_ ⟨⟨trivial, trivial⟩, Step.poll rfl rfl (.inl rfl)⟩
  refine .step (.setInts true true) ?_ ⟨⟨trivial, trivial⟩, Step.setInts rfl rfl⟩
  exact .step (.next false) reachable_sent ⟨⟨trivial, looks_next rfl (by decide)⟩, Step.next rfl rfl⟩

theorem tlb_shootdown_safe_answered :
    answered.ShootdownSafe ∧ answered.call false = some { shot with intena := true, pc := .done } ∧
      answered.online true = true :=
  ⟨tlb_shootdown_safe reachable_answered, rfl, rfl⟩

def moved : Smp Bool :=
  let out := { (flushed.setCall false none).setInts false false with ready := [{ shot with pc := .flush 1 }] }
  { (out.setCall true (some { shot with pc := .flush 1 })).setInts true true with ready := [] }

def escaped : Smp Bool :=
  let off := (moved.check true { shot with pc := .flush 1 }).pushOff true { shot with pc := .counted }
  let posted := (off.next true (shotAt 1 (.loop 0)) 1 0 0).post true (shotAt 1 (.post 0)) 1 0 0
  let waiting := (posted.next true (shotAt 1 (.loop 1)) 1 0 1).next true (shotAt 1 (.loop 2)) 1 0 2
  let taken := (((waiting.setInts false true).setHandler false (some {})).scan false 0).scan false 1
  ((taken.answer false 1 0 0 { virt := shot.virt, pages := shot.pages, pending := 1 }).answer false 1 0 1
    { virt := shot.virt, pages := shot.pages, pending := 1 }).ret true (shotAt 1 .wait) 0

lemma reachable_moved : (system false).Reachable moved := by
  refine .step (.dispatch true { shot with pc := .flush 1 }) ?_
    (Step.dispatch rfl rfl rfl (List.mem_singleton.2 rfl))
  exact .step (.preempt false) reachable_flushed.of_guarded
    (Step.preempt rfl rfl (.inr ⟨1, rfl⟩) rfl)

lemma reachable_escaped : (system false).Reachable escaped := by
  refine .step (.ret true) ?_ (Step.ret rfl rfl rfl rfl rfl)
  refine .step (.answer false) ?_ (Step.answer rfl rfl)
  refine .step (.answer false) ?_ (Step.answer rfl rfl)
  refine .step (.scan false) ?_ (Step.scan rfl)
  refine .step (.scan false) ?_ (Step.scan rfl)
  refine .step (.poll false) ?_ (Step.poll rfl rfl (.inl rfl))
  refine .step (.setInts false true) ?_ (Step.setInts rfl rfl)
  refine .step (.next true) ?_ (Step.next rfl rfl)
  refine .step (.next true) ?_ (Step.next rfl rfl)
  refine .step (.post true) ?_ (Step.post rfl rfl)
  refine .step (.next true) ?_ (Step.next rfl rfl)
  refine .step (.pushOff true) ?_ (Step.pushOff rfl rfl rfl)
  exact .step (.check true) reachable_moved (Step.check rfl rfl rfl (by decide))

theorem not_tlb_shootdown_safe :
    ¬ ∀ s : Smp Bool, (system false).Reachable s → s.ShootdownSafe := by
  intro h
  refine (h escaped reachable_escaped).flushed true { shot with intena := true, pc := .done } rfl rfl true
    rfl 0 (by decide) ⟨0, ?_, by decide⟩
  exact (congrArg (escaped.tlb true) page_shot).trans rfl

end Smp

end MyOS.Arch
