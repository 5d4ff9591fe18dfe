import MyOS.Arch.Smp
import MyOS.Library.Counted

/-! The CPUs' numbers, and the requests on their way: every request in an inbox slot is that of a call that
waits for it. -/

namespace MyOS.Arch

open Library Function

variable {C : Type}

structure Percpu.Wired (s : Percpu C) : Prop where
  one_le : 1 ≤ s.ncpus
  le_max : s.ncpus ≤ maxCpus
  entry : ∀ i d, s.cpus i = some d →
    s.id d = i ∧ s.named d = true ∧ (i < s.ncpus ∨ i = s.ncpus ∧ s.waking = some d)
  here : ∀ d, s.running d = true → s.cpus (s.id d) = some d
  counted : ∀ i < s.ncpus, ∃ d, s.cpus i = some d ∧ s.online d = true
  running : ∀ d, s.online d = true → s.running d = true
  woken : ∀ d, s.waking = some d → s.cpus s.ncpus = some d ∧ s.ncpus < maxCpus

namespace Percpu.Wired

variable {s : Percpu C} {c d : C}

lemma id_inj (h : s.Wired) (hc : s.running c = true) (hd : s.running d = true)
    (hid : s.id c = s.id d) : c = d := by
  have hcc := h.here c hc
  rw [hid, h.here d hd] at hcc
  exact (Option.some.inj hcc).symm

lemma named (h : s.Wired) (hc : s.running c = true) : s.named c = true :=
  (h.entry _ c (h.here c hc)).2.1

lemma id_lt (h : s.Wired) (hc : s.running c = true) : s.id c < maxCpus := by
  obtain ⟨-, -, hlt | ⟨heq, hw⟩⟩ := h.entry _ c (h.here c hc)
  · exact hlt.trans_le h.le_max
  · rw [heq]
    exact (h.woken c hw).2

end Percpu.Wired

namespace SendPc

def Past : SendPc → ℕ → Prop
  | .loop j, i => i < j
  | .post j, i => i < j
  | .wait, _ => True

end SendPc

def Shootdown.sending (k : Shootdown) : Option (ℕ × ℕ × SendPc) :=
  match k.pc with
  | .off me r l => some (me, r, l)
  | _ => none

lemma Shootdown.sending_eq {k : Shootdown} {me r : ℕ} {l : SendPc} :
    k.sending = some (me, r, l) ↔ k.pc = .off me r l := by
  unfold Shootdown.sending
  cases k.pc <;> simp

lemma Shootdown.Preemptible.sending {k : Shootdown} (h : k.Preemptible) : k.sending = none := by
  obtain h | ⟨i, h⟩ := h <;> simp [Shootdown.sending, h]

def InboxPc.taken (h : InboxPc) : Option (ℕ × ℕ) := h.req.map fun x => (h.s, x.1)

namespace Smp

variable {s t : Smp C} {c d : C} {k : Shootdown} {i j m me r n : ℕ} {l : SendPc}

def sending (s : Smp C) (c : C) : Option (ℕ × ℕ × SendPc) := (s.call c).bind Shootdown.sending

def taken (s : Smp C) (c : C) : Option (ℕ × ℕ) := (s.handler c).bind InboxPc.taken

def Owes (s : Smp C) (r i : ℕ) : Prop :=
  (∃ m, s.inbox i m = some r) ∨ (∃ d j, s.id d = i ∧ s.taken d = some (j, r)) ∨
    ∃ c me, s.sending c = some (me, r, .post i)

def FrameOf (s : Smp C) (r : ℕ) (k : Shootdown) : Prop :=
  ∃ q, s.frames r = some q ∧ q.virt = k.virt ∧ q.pages = k.pages ∧ Numbered (s.Owes r) q.pending

structure Mail (s : Smp C) : Prop where
  call : ∀ c, s.call c ≠ none → s.online c = true
  handler : ∀ c, s.handler c ≠ none → s.running c = true
  ready : ∀ k ∈ s.ready, k.Preemptible
  me : ∀ c me r l, s.sending c = some (me, r, l) → me = s.id c
  frame : ∀ c k me r l, s.call c = some k → k.pc = .off me r l → s.FrameOf r k
  sole : ∀ c d me me' r l l', s.sending c = some (me, r, l) → s.sending d = some (me', r, l') → c = d
  fresh : ∀ r, s.frames r ≠ none → r < s.nframes
  asked : ∀ c me r i, s.sending c = some (me, r, .post i) → i < s.ncpus ∧ i ≠ me
  slot : ∀ i m r, s.inbox i m = some r →
    i < s.ncpus ∧ ∃ c l, s.sending c = some (m, r, l) ∧ l.Past i
  taken : ∀ d j r, s.taken d = some (j, r) → ∃ c l, s.sending c = some (j, r, l) ∧ l.Past (s.id d)
  apart : ∀ d m j r, s.inbox (s.id d) m = some r → s.taken d ≠ some (j, r)

lemma sending_of_call (hc : s.call c = some k) : s.sending c = k.sending := by
  rw [sending, hc]
  rfl

lemma sending_of_pc (hc : s.call c = some k) (hk : k.pc = .off me r l) :
    s.sending c = some (me, r, l) := by
  rw [sending_of_call hc, Shootdown.sending_eq]
  exact hk

lemma call_of_sending (h : s.sending c = some (me, r, l)) :
    ∃ k, s.call c = some k ∧ k.pc = .off me r l := by
  rw [sending] at h
  cases hc : s.call c with
  | none => simp [hc] at h
  | some k =>
    rw [hc] at h
    exact ⟨k, rfl, Shootdown.sending_eq.1 h⟩

lemma handler_of_taken (h : s.taken c = some (j, r)) : s.handler c ≠ none := by
  intro hn
  simp [taken, hn] at h

section Setters

variable [DecidableEq C]

lemma sending_setCall {o : Option Shootdown} :
    (s.setCall c o).sending = update s.sending c (o.bind Shootdown.sending) := by
  funext d
  by_cases hd : d = c
  · subst hd
    simp [sending, setCall]
  · simp [sending, setCall, hd]

lemma taken_setHandler {o : Option InboxPc} :
    (s.setHandler c o).taken = update s.taken c (o.bind InboxPc.taken) := by
  funext d
  by_cases hd : d = c
  · subst hd
    simp [taken, setHandler]
  · simp [taken, setHandler, hd]

lemma sending_cases {x : Option (ℕ × ℕ × SendPc)} {y : ℕ × ℕ × SendPc} (h : t.sending = update s.sending c x)
    (hd : t.sending d = some y) : d = c ∧ x = some y ∨ d ≠ c ∧ s.sending d = some y := by
  rw [h] at hd
  by_cases hdc : d = c
  · rw [hdc, update_self] at hd
    exact .inl ⟨hdc, hd⟩
  · rw [update_of_ne hdc] at hd
    exact .inr ⟨hdc, hd⟩

omit [DecidableEq C] in
lemma setSlot_inbox {o : Option ℕ} : (s.setSlot i m o).inbox j n =
    if j = i ∧ n = m then o else s.inbox j n := by
  unfold setSlot
  by_cases hj : j = i
  · subst hj
    by_cases hn : n = m
    · subst hn
      simp
    · simp [hn]
  · simp [hj]

end Setters

namespace Mail

lemma id_of_taken (h : s.Mail) (ht : s.taken d = some (j, r)) : s.running d = true :=
  h.handler d (handler_of_taken ht)

lemma quiet (h : s.Mail) (hn : s.ncpus ≤ t.ncpus)
    (hid : ∀ d, s.sending d ≠ none ∨ s.taken d ≠ none → t.id d = s.id d)
    (hs : t.sending = s.sending) (ht : t.taken = s.taken) (hi : t.inbox = s.inbox)
    (hf : t.frames = s.frames) (hnf : t.nframes = s.nframes)
    (hc : ∀ c x, s.sending c = some x → t.call c = s.call c)
    (hcall : ∀ c, t.call c ≠ none → t.online c = true)
    (hh : ∀ c, t.handler c ≠ none → t.running c = true)
    (hr : ∀ k ∈ t.ready, k.Preemptible) : t.Mail := by
  have hid' : ∀ {d x}, s.taken d = some x → t.id d = s.id d := fun htk => hid _ (.inr (by simp [htk]))
  have howes : ∀ r i, t.Owes r i ↔ s.Owes r i := by
    intro r i
    unfold Owes
    rw [hs, ht, hi]
    refine or_congr_right (or_congr_left ⟨?_, ?_⟩)
    · rintro ⟨d, j, hd, htk⟩
      exact ⟨d, j, (hid' htk).symm.trans hd, htk⟩
    · rintro ⟨d, j, hd, htk⟩
      exact ⟨d, j, (hid' htk).trans hd, htk⟩
  constructor
  · exact hcall
  · exact hh
  · exact hr
  · intro c me r l hsc
    rw [hs] at hsc
    rw [hid c (.inl (by simp [hsc]))]
    exact h.me c me r l hsc
  · intro c k me r l hk hpc
    have hsc := sending_of_pc hk hpc
    rw [hs] at hsc
    rw [hc c _ hsc] at hk
    obtain ⟨q, hq, hv, hp, hnum⟩ := h.frame c k me r l hk hpc
    exact ⟨q, by rw [hf, hq], hv, hp, hnum.congr (howes r)⟩
  · rw [hs]
    exact h.sole
  · rw [hf, hnf]
    exact h.fresh
  · intro c me r i hsc
    rw [hs] at hsc
    exact ⟨(h.asked c me r i hsc).1.trans_le hn, (h.asked c me r i hsc).2⟩
  · intro i m r hm
    rw [hi] at hm
    rw [hs]
    exact ⟨(h.slot i m r hm).1.trans_le hn, (h.slot i m r hm).2⟩
  · intro d j r htk
    rw [ht] at htk
    rw [hs, hid' htk]
    exact h.taken d j r htk
  · intro d m j r hm htk
    rw [ht] at htk
    rw [hi, hid' htk] at hm
    exact h.apart d m j r hm htk

lemma same (h : s.Mail) (hcpu : t.toPercpu = s.toPercpu) (hcall : t.call = s.call)
    (hh : t.handler = s.handler) (hi : t.inbox = s.inbox) (hf : t.frames = s.frames)
    (hnf : t.nframes = s.nframes) (hr : ∀ k ∈ t.ready, k.Preemptible) : t.Mail := by
  refine h.quiet (by rw [hcpu]) (fun _ _ => by rw [hcpu]) ?_ ?_ hi hf hnf (fun c _ _ => congrFun hcall c) ?_ ?_ hr
  · unfold sending
    rw [hcall]
  · unfold Smp.taken
    rw [hh]
  · rw [hcall, hcpu]
    exact h.call
  · rw [hh, hcpu]
    exact h.handler

lemma frame_of_sending (h : s.Mail) (hs : s.sending c = some (me, r, l)) : s.frames r ≠ none := by
  obtain ⟨k, hk, hpc⟩ := call_of_sending hs
  obtain ⟨q, hq, -⟩ := h.frame c k me r l hk hpc
  rw [hq]
  simp

lemma frame_of_slot (h : s.Mail) (hm : s.inbox i m = some r) : s.frames r ≠ none := by
  obtain ⟨-, c, l, hs, -⟩ := h.slot i m r hm
  exact h.frame_of_sending hs

lemma frame_of_taken (h : s.Mail) (ht : s.taken d = some (j, r)) : s.frames r ≠ none := by
  obtain ⟨c, l, hs, -⟩ := h.taken d j r ht
  exact h.frame_of_sending hs

lemma running_of_sending (h : s.Mail) (hw : s.toPercpu.Wired) (hs : s.sending c = some (me, r, l)) :
    s.running c = true := by
  obtain ⟨k, hk, -⟩ := call_of_sending hs
  exact hw.running c (h.call c (by simp [hk]))

lemma running_of_busy (h : s.Mail) (hw : s.toPercpu.Wired) (hd : s.sending d ≠ none ∨ s.taken d ≠ none) :
    s.running d = true := by
  rcases hd with hd | hd
  · obtain ⟨⟨me, r, l⟩, hx⟩ := Option.ne_none_iff_exists'.1 hd
    exact h.running_of_sending hw hx
  · obtain ⟨⟨j, r⟩, hx⟩ := Option.ne_none_iff_exists'.1 hd
    exact h.id_of_taken hx

lemma sender_eq (h : s.Mail) (hw : s.toPercpu.Wired) {r' : ℕ} {l' : SendPc}
    (hc : s.sending c = some (me, r, l)) (hd : s.sending d = some (me, r', l')) : d = c := by
  apply hw.id_inj (h.running_of_sending hw hd) (h.running_of_sending hw hc)
  rw [← h.me d me r' l' hd, ← h.me c me r l hc]

lemma not_owes (h : s.Mail) (hs : s.sending c = some (me, r, l)) (hi : ¬ l.Past i)
    (hl : l ≠ .post i) : ¬ s.Owes r i := by
  rintro (⟨m, hm⟩ | ⟨d, j, hd, ht⟩ | ⟨d, me', hd⟩)
  · obtain ⟨-, c', l', hs', hp⟩ := h.slot i m r hm
    obtain rfl := h.sole c c' _ _ _ _ _ hs hs'
    cases hs.symm.trans hs'
    exact hi hp
  · obtain ⟨c', l', hs', hp⟩ := h.taken d j r ht
    obtain rfl := h.sole c c' _ _ _ _ _ hs hs'
    cases hs.symm.trans hs'
    exact hi (hd ▸ hp)
  · obtain rfl := h.sole c d _ _ _ _ _ hs hd
    cases hs.symm.trans hd
    exact hl rfl

lemma slot_free (h : s.Mail) (hw : s.toPercpu.Wired) (hc : s.sending c = some (me, r, .post i)) :
    s.inbox i me = none := by
  by_contra hne
  obtain ⟨r', hr'⟩ := Option.ne_none_iff_exists'.1 hne
  obtain ⟨-, d, l, hd, hp⟩ := h.slot i me r' hr'
  obtain rfl := h.sender_eq hw hc hd
  cases hc.symm.trans hd
  exact lt_irrefl i hp

section Sender

variable [DecidableEq C]

lemma call_update (h : s.Mail) (hc : s.call c = some k) {o : Option Shootdown}
    (hd : update s.call c o d ≠ none) : s.online d = true := by
  apply h.call d
  by_cases hdc : d = c
  · rw [hdc, hc]
    simp
  · rwa [update_of_ne hdc] at hd

lemma sending_setPc {pc : ShootPc} : (s.setPc c k pc).sending =
    update s.sending c (Shootdown.sending { k with pc := pc }) := by
  rw [setPc, sending_setCall]
  rfl

lemma resend (h : s.Mail) (l' : SendPc) (hc : s.call c = some k) (hk : k.pc = .off me r l)
    (hp : ∀ i, l.Past i → l'.Past i) (hl' : ∀ i, l' = .post i → i < s.ncpus ∧ i ≠ me)
    (ht : t.toPercpu = s.toPercpu) (hcall : t.call = (s.setPc c k (.off me r l')).call)
    (hh : t.handler = s.handler) (hr : t.ready = s.ready) (hnf : t.nframes = s.nframes)
    (hf : ∀ r', r' ≠ r → t.frames r' = s.frames r') (hfr : t.FrameOf r { k with pc := .off me r l' })
    (howes : ∀ r', r' ≠ r → ∀ i, t.Owes r' i ↔ s.Owes r' i)
    (hslot : ∀ i m r', t.inbox i m = some r' → s.inbox i m = some r' ∨
      i < s.ncpus ∧ m = me ∧ r' = r ∧ l'.Past i ∧ ¬ l.Past i) : t.Mail := by
  have hsc := sending_of_pc hc hk
  have hsend : t.sending = update s.sending c (some (me, r, l')) := by
    have hsame : t.sending = (s.setPc c k (.off me r l')).sending := by
      unfold sending
      rw [hcall]
    rw [hsame, sending_setPc]
    rfl
  have htaken : t.taken = s.taken := by
    unfold Smp.taken
    rw [hh]
  have hstill : ∀ d m r' l₁ i, s.sending d = some (m, r', l₁) → l₁.Past i →
      ∃ d' l₂, t.sending d' = some (m, r', l₂) ∧ l₂.Past i := by
    intro d m r' l₁ i hd hi
    by_cases hdc : d = c
    · subst hdc
      cases hsc.symm.trans hd
      exact ⟨d, l', by rw [hsend, update_self], hp i hi⟩
    · exact ⟨d, l₁, by rw [hsend, update_of_ne hdc, hd], hi⟩
  constructor
  · intro d hd
    rw [hcall] at hd
    rw [ht]
    exact h.call_update hc hd
  · rw [hh, ht]
    exact h.handler
  · rw [hr]
    exact h.ready
  · intro d m r' l₁ hd
    rw [ht]
    obtain ⟨rfl, hx⟩ | ⟨-, hd⟩ := sending_cases hsend hd
    · cases hx
      exact h.me d _ _ _ hsc
    · exact h.me d m r' l₁ hd
  · intro d k' m r' l₁ hd hpc
    obtain ⟨rfl, hx⟩ | ⟨hdc, hsd⟩ := sending_cases hsend (sending_of_pc hd hpc)
    · cases hx
      rw [hcall] at hd
      simp only [setPc, setCall, update_self, Option.some.injEq] at hd
      exact hd ▸ hfr
    · have hne : r' ≠ r := by
        rintro rfl
        exact hdc (h.sole d c _ _ _ _ _ hsd hsc)
      rw [hcall] at hd
      simp only [setPc, setCall] at hd
      rw [update_of_ne hdc] at hd
      obtain ⟨q, hq, hv, hps, hnum⟩ := h.frame d k' m r' l₁ hd hpc
      exact ⟨q, by rw [hf r' hne, hq], hv, hps, hnum.congr (howes r' hne)⟩
  · intro d d' m m' r' l₁ l₂ hd hd'
    obtain ⟨rfl, hx⟩ | ⟨hdc, hsd⟩ := sending_cases hsend hd
    · obtain ⟨rfl, -⟩ | ⟨hdc', hsd'⟩ := sending_cases hsend hd'
      · rfl
      · cases hx
        exact h.sole d d' _ _ _ _ _ hsc hsd'
    · obtain ⟨rfl, hx⟩ | ⟨-, hsd'⟩ := sending_cases hsend hd'
      · cases hx
        exact h.sole d d' _ _ _ _ _ hsd hsc
      · exact h.sole d d' _ _ _ _ _ hsd hsd'
  · intro r' hr'
    rw [hnf]
    by_cases hne : r' = r
    · subst hne
      exact h.fresh r' (h.frame_of_sending hsc)
    · rw [hf r' hne] at hr'
      exact h.fresh r' hr'
  · intro d m r' i hd
    rw [ht]
    obtain ⟨-, hx⟩ | ⟨-, hd⟩ := sending_cases hsend hd
    · cases hx
      exact hl' i rfl
    · exact h.asked d m r' i hd
  · intro i m r' hm
    rw [ht]
    obtain hm | ⟨hi, rfl, rfl, hpi, -⟩ := hslot i m r' hm
    · obtain ⟨hi, d, l₁, hd, hpi⟩ := h.slot i m r' hm
      exact ⟨hi, hstill d m r' l₁ i hd hpi⟩
    · exact ⟨hi, c, l', by rw [hsend, update_self], hpi⟩
  · intro d j r' htk
    rw [htaken] at htk
    rw [ht]
    obtain ⟨d', l₁, hd, hpi⟩ := h.taken d j r' htk
    exact hstill d' j r' l₁ _ hd hpi
  · intro d m j r' hm htk
    rw [htaken] at htk
    rw [ht] at hm
    obtain hm | ⟨-, -, rfl, -, hpi⟩ := hslot _ m r' hm
    · exact h.apart d m j r' hm htk
    · obtain ⟨d', l₁, hd, hpd⟩ := h.taken d j r' htk
      obtain rfl := h.sole c d' _ _ _ _ _ hsc hd
      cases hsc.symm.trans hd
      exact hpi hpd

lemma owes_setPc {l' : SendPc} (hc : s.sending c = some (me, r, l))
    (hi : l ≠ .post i) (hi' : l' ≠ .post i) :
    (s.setPc c k (.off me r l')).Owes m i ↔ s.Owes m i := by
  refine or_congr_right (or_congr_right ⟨?_, ?_⟩)
  · rintro ⟨d, me', hd⟩
    rw [sending_setPc] at hd
    by_cases hdc : d = c
    · rw [hdc, update_self] at hd
      simp only [Shootdown.sending, Option.some.injEq, Prod.mk.injEq] at hd
      exact absurd hd.2.2 hi'
    · rw [update_of_ne hdc] at hd
      exact ⟨d, me', hd⟩
  · rintro ⟨d, me', hd⟩
    have hdc : d ≠ c := by
      rintro rfl
      cases hc.symm.trans hd
      exact hi rfl
    refine ⟨d, me', ?_⟩
    rw [sending_setPc, update_of_ne hdc]
    exact hd

lemma advance (h : s.Mail) (hc : s.call c = some k) (hk : k.pc = .off me r l) {l' : SendPc}
    (hp : ∀ i, l.Past i → l'.Past i) (hl : ∀ i, l ≠ .post i) (hl' : ∀ i, l' ≠ .post i) :
    (s.setPc c k (.off me r l')).Mail := by
  have hsc := sending_of_pc hc hk
  refine h.resend l' hc hk hp (fun i hi => absurd hi (hl' i)) rfl rfl rfl rfl rfl (fun _ _ => rfl) ?_
    (fun r' _ i => owes_setPc hsc (hl i) (hl' i)) fun i m r' hm => .inl hm
  obtain ⟨q, hq, hv, hps, hnum⟩ := h.frame c k me r l hc hk
  exact ⟨q, hq, hv, hps, hnum.congr fun i => owes_setPc hsc (hl i) (hl' i)⟩

lemma owes_count (hc : s.sending c = some (me, r, .loop i)) {f : ℕ → ℕ} :
    ((s.setPending r f).setPc c k (.off me r (.post i))).Owes m j ↔ s.Owes m j ∨ m = r ∧ j = i := by
  constructor
  · rintro (hm | hd | ⟨d, me', hd⟩)
    · exact .inl (.inl hm)
    · exact .inl (.inr (.inl hd))
    · rw [sending_setPc] at hd
      by_cases hdc : d = c
      · rw [hdc, update_self] at hd
        simp only [Shootdown.sending, Option.some.injEq, Prod.mk.injEq, SendPc.post.injEq] at hd
        exact .inr ⟨hd.2.1.symm, hd.2.2.symm⟩
      · rw [update_of_ne hdc] at hd
        exact .inl (.inr (.inr ⟨d, me', hd⟩))
  · rintro ((hm | hd | ⟨d, me', hd⟩) | ⟨rfl, rfl⟩)
    · exact .inl hm
    · exact .inr (.inl hd)
    · have hdc : d ≠ c := by
        rintro rfl
        rw [hc] at hd
        simp at hd
      refine .inr (.inr ⟨d, me', ?_⟩)
      rw [sending_setPc, update_of_ne hdc]
      exact hd
    · refine .inr (.inr ⟨c, me, ?_⟩)
      rw [sending_setPc, update_self]
      rfl

lemma next (h : s.Mail) (hc : s.call c = some k) (hk : k.pc = .off me r (.loop i)) :
    (s.next c k me r i).Mail := by
  have hsc := sending_of_pc hc hk
  unfold Smp.next
  split_ifs with hn hskip
  · exact h.advance hc hk (fun _ _ => trivial) (by simp) (by simp)
  · exact h.advance hc hk (fun j hj => Nat.lt_succ_of_lt hj) (by simp) (by simp)
  · obtain ⟨q, hq, hv, hps, hnum⟩ := h.frame c k me r _ hc hk
    refine h.resend (.post i) hc hk (fun _ hj => hj) ?_ rfl rfl rfl rfl rfl ?_ ?_ ?_ fun _ _ _ hm =>
      .inl hm
    · intro j hj
      obtain rfl := SendPc.post.inj hj
      exact ⟨by omega, fun he => hskip (.inl he)⟩
    · intro r' hr'
      exact update_of_ne hr' _ _
    · refine ⟨{ q with pending := q.pending + 1 }, ?_, hv, hps, ?_⟩
      · change update s.frames r _ r = _
        rw [update_self, hq]
        rfl
      · refine hnum.add (a := i) (h.not_owes hsc (lt_irrefl i) (by simp)) fun j => ?_
        rw [owes_count hsc]
        simp
    · intro r' hr' j
      rw [owes_count hsc]
      simp [hr']

lemma owes_post (hc : s.sending c = some (me, r, .post i)) (hfree : s.inbox i me = none) :
    (s.post c k me r i).Owes m j ↔ s.Owes m j := by
  have hinbox : ∀ j n, (s.post c k me r i).inbox j n = if j = i ∧ n = me then some r else s.inbox j n :=
    fun j n => setSlot_inbox
  have hsend : ∀ d, (s.post c k me r i).sending d =
      if d = c then some (me, r, .loop (i + 1)) else s.sending d := by
    intro d
    rw [Smp.post, sending_setPc]
    by_cases hdc : d = c
    · rw [hdc, update_self, if_pos rfl]
      rfl
    · rw [update_of_ne hdc, if_neg hdc]
      rfl
  constructor
  · rintro (⟨n, hn⟩ | hd | ⟨d, me', hd⟩)
    · rw [hinbox] at hn
      split_ifs at hn with hj
      · rw [← Option.some.inj hn, hj.1]
        exact .inr (.inr ⟨c, me, hc⟩)
      · exact .inl ⟨n, hn⟩
    · exact .inr (.inl hd)
    · rw [hsend] at hd
      split_ifs at hd with hdc
      · simp at hd
      · exact .inr (.inr ⟨d, me', hd⟩)
  · rintro (⟨n, hn⟩ | hd | ⟨d, me', hd⟩)
    · refine .inl ⟨n, ?_⟩
      rw [hinbox, if_neg, hn]
      rintro ⟨rfl, rfl⟩
      rw [hfree] at hn
      simp at hn
    · exact .inr (.inl hd)
    · by_cases hdc : d = c
      · subst hdc
        rw [hc] at hd
        simp only [Option.some.injEq, Prod.mk.injEq, SendPc.post.injEq] at hd
        refine .inl ⟨me, ?_⟩
        rw [hinbox, if_pos ⟨hd.2.2.symm, rfl⟩, hd.2.1]
      · refine .inr (.inr ⟨d, me', ?_⟩)
        rw [hsend, if_neg hdc, hd]

lemma post (h : s.Mail) (hw : s.toPercpu.Wired) (hc : s.call c = some k)
    (hk : k.pc = .off me r (.post i)) : (s.post c k me r i).Mail := by
  have hsc := sending_of_pc hc hk
  have hfree := h.slot_free hw hsc
  refine h.resend (.loop (i + 1)) hc hk (fun _ hj => Nat.lt_succ_of_lt hj) (by simp) rfl rfl rfl rfl
    rfl (fun _ _ => rfl) ?_ (fun r' _ j => owes_post hsc hfree) ?_
  · obtain ⟨q, hq, hv, hps, hnum⟩ := h.frame c k me r _ hc hk
    exact ⟨q, hq, hv, hps, hnum.congr fun j => owes_post hsc hfree⟩
  · intro j n r' hn
    have hn' : (if j = i ∧ n = me then some r else s.inbox j n) = some r' := setSlot_inbox ▸ hn
    split_ifs at hn' with hj
    · obtain ⟨rfl, rfl⟩ := hj
      exact .inr ⟨(h.asked c n r j hsc).1, rfl, (Option.some.inj hn').symm, Nat.lt_succ_self j,
        lt_irrefl j⟩
    · exact .inl hn'

lemma pushOff (h : s.Mail) (hc : s.call c = some k) (hk : k.pc = .counted) :
    (s.pushOff c k).Mail := by
  have hquiet : s.sending c = none := by
    rw [sending_of_call hc]
    simp [Shootdown.sending, hk]
  have hsend : (s.pushOff c k).sending =
      update s.sending c (some (s.id c, s.nframes, .loop 0)) := sending_setCall
  have hold : s.frames s.nframes = none := by
    by_contra hne
    exact lt_irrefl _ (h.fresh _ hne)
  have hnew : ∀ d m r l, s.sending d = some (m, r, l) → r ≠ s.nframes := by
    rintro d m r l hd rfl
    exact h.frame_of_sending hd hold
  have hstill : ∀ d x, s.sending d = some x → (s.pushOff c k).sending d = some x := by
    intro d x hd
    rw [hsend, update_of_ne, hd]
    rintro rfl
    rw [hquiet] at hd
    simp at hd
  have howes : ∀ r i, (s.pushOff c k).Owes r i ↔ s.Owes r i := by
    intro r i
    refine or_congr_right (or_congr_right ⟨?_, ?_⟩)
    · rintro ⟨d, me, hd⟩
      obtain ⟨-, hx⟩ | ⟨-, hd⟩ := sending_cases hsend hd
      · simp at hx
      · exact ⟨d, me, hd⟩
    · rintro ⟨d, me, hd⟩
      exact ⟨d, me, hstill d _ hd⟩
  constructor
  · intro d hd
    exact h.call_update hc hd
  · exact h.handler
  · exact h.ready
  · intro d m r l hd
    obtain ⟨rfl, hx⟩ | ⟨-, hd⟩ := sending_cases hsend hd
    · cases hx
      rfl
    · exact h.me d m r l hd
  · intro d k' m r l hd hpc
    obtain ⟨rfl, hx⟩ | ⟨hdc, hsd⟩ := sending_cases hsend (sending_of_pc hd hpc)
    · cases hx
      simp only [Smp.pushOff, update_self, Option.some.injEq] at hd
      refine ⟨{ virt := k.virt, pages := k.pages }, ?_, ?_, ?_, ?_⟩
      · exact update_self _ _ _
      · rw [← hd]
      · rw [← hd]
      · apply Numbered.zero
        intro i
        rw [howes]
        rintro (⟨m, hm⟩ | ⟨d, j, -, ht⟩ | ⟨d, me, hd⟩)
        · exact h.frame_of_slot hm hold
        · exact h.frame_of_taken ht hold
        · exact hnew _ _ _ _ hd rfl
    · simp only [Smp.pushOff] at hd
      rw [update_of_ne hdc] at hd
      obtain ⟨q, hq, hv, hps, hnum⟩ := h.frame d k' m r l hd hpc
      refine ⟨q, ?_, hv, hps, hnum.congr (howes r)⟩
      change update s.frames _ _ r = _
      rw [update_of_ne (hnew _ _ _ _ hsd), hq]
  · intro d d' m m' r l l' hd hd'
    obtain ⟨rfl, hx⟩ | ⟨-, hsd⟩ := sending_cases hsend hd
    · obtain ⟨rfl, -⟩ | ⟨-, hsd'⟩ := sending_cases hsend hd'
      · rfl
      · cases hx
        exact absurd rfl (hnew _ _ _ _ hsd')
    · obtain ⟨rfl, hx⟩ | ⟨-, hsd'⟩ := sending_cases hsend hd'
      · cases hx
        exact absurd rfl (hnew _ _ _ _ hsd)
      · exact h.sole d d' _ _ _ _ _ hsd hsd'
  · intro r hr
    change update s.frames _ _ r ≠ none at hr
    change r < s.nframes + 1
    by_cases hrn : r = s.nframes
    · omega
    · rw [update_of_ne hrn] at hr
      exact Nat.lt_succ_of_lt (h.fresh r hr)
  · intro d m r i hd
    obtain ⟨-, hx⟩ | ⟨-, hd⟩ := sending_cases hsend hd
    · simp at hx
    · exact h.asked d m r i hd
  · intro i m r hm
    obtain ⟨hi, d, l, hd, hp⟩ := h.slot i m r hm
    exact ⟨hi, d, l, hstill d _ hd, hp⟩
  · intro d j r ht
    obtain ⟨d', l, hd, hp⟩ := h.taken d j r ht
    exact ⟨d', l, hstill d' _ hd, hp⟩
  · exact h.apart

lemma ret (h : s.Mail) (hc : s.call c = some k) (hk : k.pc = .off me r .wait) {q : TlbReq}
    (hr : s.frames r = some q) (hq : q.pending = 0) : (s.ret c k r).Mail := by
  have hsc := sending_of_pc hc hk
  have hsend : (s.ret c k r).sending = update s.sending c none := sending_setCall
  have hnone : ∀ i, ¬ s.Owes r i := by
    obtain ⟨q', hq', -, -, hnum⟩ := h.frame c k me r _ hc hk
    rw [hr] at hq'
    rw [← Option.some.inj hq', hq] at hnum
    exact fun i => hnum.eq_zero i
  have hother : ∀ d x, (s.ret c k r).sending d = some x → d ≠ c ∧ s.sending d = some x := fun d x hd =>
    (sending_cases hsend hd).resolve_left nofun
  have hne : ∀ d m r' l, d ≠ c → s.sending d = some (m, r', l) → r' ≠ r := by
    rintro d m r' l hdc hd rfl
    exact hdc (h.sole d c _ _ _ _ _ hd hsc)
  have hstill : ∀ d m r' l, r' ≠ r → s.sending d = some (m, r', l) →
      (s.ret c k r).sending d = some (m, r', l) := by
    intro d m r' l hr' hd
    rw [hsend, update_of_ne, hd]
    rintro rfl
    cases hsc.symm.trans hd
    exact hr' rfl
  have howes : ∀ r' i, r' ≠ r → ((s.ret c k r).Owes r' i ↔ s.Owes r' i) := by
    intro r' i hr'
    refine or_congr_right (or_congr_right ⟨?_, ?_⟩)
    · rintro ⟨d, m, hd⟩
      exact ⟨d, m, (hother d _ hd).2⟩
    · rintro ⟨d, m, hd⟩
      exact ⟨d, m, hstill d m r' _ hr' hd⟩
  constructor
  · intro d hd
    exact h.call_update hc hd
  · exact h.handler
  · exact h.ready
  · intro d m r' l hd
    exact h.me d m r' l (hother d _ hd).2
  · intro d k' m r' l hd hpc
    obtain ⟨hdc, hsd⟩ := hother d _ (sending_of_pc hd hpc)
    have hr' := hne d m r' l hdc hsd
    simp only [Smp.ret, setPc, setCall, Smp.setInts, setFrame] at hd
    rw [update_of_ne hdc] at hd
    obtain ⟨q', hq', hv, hps, hnum⟩ := h.frame d k' m r' l hd hpc
    refine ⟨q', ?_, hv, hps, hnum.congr fun i => howes r' i hr'⟩
    change update s.frames _ _ r' = _
    rw [update_of_ne hr', hq']
  · intro d d' m m' r' l l' hd hd'
    exact h.sole d d' _ _ _ _ _ (hother d _ hd).2 (hother d' _ hd').2
  · intro r' hr'
    change update s.frames _ _ r' ≠ none at hr'
    by_cases hrr : r' = r
    · rw [hrr, update_self] at hr'
      exact absurd rfl hr'
    · rw [update_of_ne hrr] at hr'
      exact h.fresh r' hr'
  · intro d m r' i hd
    exact h.asked d m r' i (hother d _ hd).2
  · intro i m r' hm
    obtain ⟨hi, d, l, hd, hp⟩ := h.slot i m r' hm
    have hr' : r' ≠ r := by
      rintro rfl
      exact hnone i (.inl ⟨m, hm⟩)
    exact ⟨hi, d, l, hstill d m r' l hr' hd, hp⟩
  · intro d j r' ht
    obtain ⟨d', l, hd, hp⟩ := h.taken d j r' ht
    have hr' : r' ≠ r := by
      rintro rfl
      exact hnone (s.id d) (.inr (.inl ⟨d, j, rfl, ht⟩))
    exact ⟨d', l, hstill d' j r' l hr' hd, hp⟩
  · exact h.apart

end Sender

section Receiver

variable [DecidableEq C]

lemma receive (h : s.Mail) {o : Option InboxPc} (hrun : s.running c = true)
    (hcpu : t.toPercpu = s.toPercpu) (hcall : t.call = s.call) (hready : t.ready = s.ready)
    (hnf : t.nframes = s.nframes) (hh : t.handler = update s.handler c o)
    (hf : ∀ r, t.frames r ≠ none → s.frames r ≠ none) (hframe : ∀ r k, s.FrameOf r k → t.FrameOf r k)
    (hslot : ∀ i n r, t.inbox i n = some r → s.inbox i n = some r)
    (htaken : ∀ d j r, t.taken d = some (j, r) →
      (∃ c l, s.sending c = some (j, r, l) ∧ l.Past (s.id d)) ∧ ∀ n, t.inbox (s.id d) n ≠ some r) :
    t.Mail := by
  have hsend : t.sending = s.sending := by
    unfold sending
    rw [hcall]
  constructor
  · rw [hcall, hcpu]
    exact h.call
  · intro d hd
    rw [hh] at hd
    rw [hcpu]
    by_cases hdc : d = c
    · exact hdc ▸ hrun
    · rw [update_of_ne hdc] at hd
      exact h.handler d hd
  · exact hready ▸ h.ready
  · rw [hsend, hcpu]
    exact h.me
  · intro d k m r l hd hpc
    rw [hcall] at hd
    exact hframe r k (h.frame d k m r l hd hpc)
  · exact hsend ▸ h.sole
  · exact fun r hr => hnf ▸ h.fresh r (hf r hr)
  · rw [hsend, hcpu]
    exact h.asked
  · rw [hsend, hcpu]
    exact fun i n r hn => h.slot i n r (hslot i n r hn)
  · rw [hsend, hcpu]
    exact fun d j r ht => (htaken d j r ht).1
  · rw [hcpu]
    exact fun d n j r hn ht => (htaken d j r ht).2 n hn

lemma take (h : s.Mail) (hh : s.handler c = some { s := j })
    (hm : s.inbox (s.id c) j = some r) :
    ((s.setSlot (s.id c) j none).setHandler c (some { s := j, req := some (r, 0) })).Mail := by
  generalize ht : (s.setSlot (s.id c) j none).setHandler c (some { s := j, req := some (r, 0) }) = t
  have hrun : s.running c = true := h.handler c (by simp [hh])
  have hinbox : ∀ i n, t.inbox i n = if i = s.id c ∧ n = j then none else s.inbox i n := by
    intro i n
    rw [← ht]
    exact setSlot_inbox
  have hidle : s.taken c = none := by
    simp [Smp.taken, hh, InboxPc.taken]
  have htaken : ∀ d, t.taken d = if d = c then some (j, r) else s.taken d := by
    intro d
    rw [← ht, taken_setHandler]
    by_cases hdc : d = c
    · rw [hdc, update_self, if_pos rfl]
      rfl
    · rw [update_of_ne hdc, if_neg hdc]
      rfl
  have hsend : t.sending = s.sending := by
    rw [← ht]
    rfl
  have hid : t.id = s.id := by rw [← ht]; rfl
  have hold : ∀ i n r', t.inbox i n = some r' → s.inbox i n = some r' ∧ ¬ (i = s.id c ∧ n = j) := by
    intro i n r' hn
    rw [hinbox] at hn
    split_ifs at hn with hi
    exact ⟨hn, hi⟩
  -- one sender writes to one column only
  have hcol : ∀ n, s.inbox (s.id c) n = some r → n = j := by
    intro n hn
    obtain ⟨-, d, l, hd, -⟩ := h.slot _ n r hn
    obtain ⟨-, d', l', hd', -⟩ := h.slot _ j r hm
    obtain rfl := h.sole d d' _ _ _ _ _ hd hd'
    cases hd.symm.trans hd'
    rfl
  have howes : ∀ r' i, t.Owes r' i ↔ s.Owes r' i := by
    intro r' i
    unfold Owes
    rw [hsend, hid]
    constructor
    · rintro (⟨n, hn⟩ | ⟨d, j', hd, htk⟩ | hpost)
      · exact .inl ⟨n, (hold i n r' hn).1⟩
      · rw [htaken] at htk
        split_ifs at htk with hdc
        · simp only [Option.some.injEq, Prod.mk.injEq] at htk
          rw [← hd, hdc, ← htk.2]
          exact .inl ⟨j, hm⟩
        · exact .inr (.inl ⟨d, j', hd, htk⟩)
      · exact .inr (.inr hpost)
    · rintro (⟨n, hn⟩ | ⟨d, j', hd, htk⟩ | hpost)
      · by_cases hi : i = s.id c ∧ n = j
        · obtain ⟨rfl, rfl⟩ := hi
          rw [hm] at hn
          refine .inr (.inl ⟨c, n, rfl, ?_⟩)
          rw [htaken, if_pos rfl, Option.some.inj hn]
        · refine .inl ⟨n, ?_⟩
          rw [hinbox, if_neg hi, hn]
      · refine .inr (.inl ⟨d, j', hd, ?_⟩)
        rw [htaken, if_neg, htk]
        rintro rfl
        rw [hidle] at htk
        simp at htk
      · exact .inr (.inr hpost)
  subst ht
  refine h.receive hrun rfl rfl rfl rfl rfl (fun _ => id) (fun r' k hfr => ?_)
    (fun i n r' hn => (hold i n r' hn).1) fun d j' r' htk => ?_
  · obtain ⟨q, hq, hv, hps, hnum⟩ := hfr
    exact ⟨q, hq, hv, hps, hnum.congr (howes r')⟩
  · rw [htaken] at htk
    split_ifs at htk with hdc
    · cases htk
      refine ⟨hdc ▸ (h.slot _ j r hm).2, fun n hn => ?_⟩
      obtain ⟨hn, hne⟩ := hold _ n r hn
      exact hne ⟨by rw [hdc], hcol n (hdc ▸ hn)⟩
    · exact ⟨h.taken d j' r' htk, fun n hn => h.apart d n j' r' (hold _ n r' hn).1 htk⟩

lemma answered (h : s.Mail) (hw : s.toPercpu.Wired) {j' : ℕ}
    (hh : s.handler c = some { s := j, req := some (r, n) }) :
    ((s.setPending r (· - 1)).setHandler c (some { s := j' })).Mail := by
  generalize ht : (s.setPending r (· - 1)).setHandler c (some { s := j' }) = t
  have hrun : s.running c = true := h.handler c (by simp [hh])
  have htk : s.taken c = some (j, r) := by
    simp [Smp.taken, hh, InboxPc.taken]
  have htaken : ∀ d, t.taken d = if d = c then none else s.taken d := by
    intro d
    rw [← ht, taken_setHandler]
    by_cases hdc : d = c
    · rw [hdc, update_self, if_pos rfl]
      rfl
    · rw [update_of_ne hdc, if_neg hdc]
      rfl
  have hfr : ∀ r', t.frames r' = if r' = r then
      (s.frames r).map fun q => { q with pending := q.pending - 1 } else s.frames r' := by
    intro r'
    rw [← ht]
    change update s.frames _ _ r' = _
    split_ifs with hrr
    · rw [hrr, update_self]
    · rw [update_of_ne hrr]
  have hsend : t.sending = s.sending := by
    rw [← ht]
    rfl
  have hid : t.id = s.id := by rw [← ht]; rfl
  have hinbox : t.inbox = s.inbox := by rw [← ht]; rfl
  have howes : ∀ r' i, r' ≠ r → (t.Owes r' i ↔ s.Owes r' i) := by
    intro r' i hrr
    unfold Owes
    rw [hsend, hid, hinbox]
    refine or_congr_right (or_congr_left ⟨?_, ?_⟩)
    · rintro ⟨d, j₁, hd, hdt⟩
      rw [htaken] at hdt
      split_ifs at hdt
      exact ⟨d, j₁, hd, hdt⟩
    · rintro ⟨d, j₁, hd, hdt⟩
      refine ⟨d, j₁, hd, ?_⟩
      rw [htaken, if_neg, hdt]
      rintro rfl
      cases htk.symm.trans hdt
      exact hrr rfl
  have hself : ∀ i, t.Owes r i ↔ s.Owes r i ∧ i ≠ s.id c := by
    intro i
    unfold Owes
    rw [hsend, hid, hinbox]
    constructor
    · rintro (⟨m, hm⟩ | ⟨d, j₁, hd, hdt⟩ | ⟨d, me, hd⟩)
      · refine ⟨.inl ⟨m, hm⟩, ?_⟩
        rintro rfl
        exact h.apart c m j r hm htk
      · rw [htaken] at hdt
        split_ifs at hdt with hdc
        refine ⟨.inr (.inl ⟨d, j₁, hd, hdt⟩), ?_⟩
        rintro rfl
        exact hdc (hw.id_inj (h.id_of_taken hdt) hrun hd)
      · refine ⟨.inr (.inr ⟨d, me, hd⟩), ?_⟩
        rintro rfl
        obtain ⟨d', l, hd', hp⟩ := h.taken c j r htk
        obtain rfl := h.sole d d' _ _ _ _ _ hd hd'
        cases hd.symm.trans hd'
        exact lt_irrefl _ hp
    · rintro ⟨hm | ⟨d, j₁, hd, hdt⟩ | hpost, hi⟩
      · exact .inl hm
      · refine .inr (.inl ⟨d, j₁, hd, ?_⟩)
        rw [htaken, if_neg, hdt]
        rintro rfl
        exact hi hd.symm
      · exact .inr (.inr hpost)
  subst ht
  refine h.receive hrun rfl rfl rfl rfl rfl (fun r' hr' => ?_) (fun r' k hfo => ?_) (fun _ _ _ => id)
    fun d j₁ r' hdt => ?_
  · rw [hfr] at hr'
    split_ifs at hr' with hrr
    · rw [hrr]
      simpa using hr'
    · exact hr'
  · obtain ⟨q, hq, hv, hps, hnum⟩ := hfo
    by_cases hrr : r' = r
    · subst hrr
      refine ⟨{ q with pending := q.pending - 1 }, ?_, hv, hps, ?_⟩
      · rw [hfr, if_pos rfl, hq]
        rfl
      · exact hnum.remove (a := s.id c) (.inr (.inl ⟨c, j, rfl, htk⟩)) hself
    · exact ⟨q, by rw [hfr, if_neg hrr, hq], hv, hps, hnum.congr fun i => howes r' i hrr⟩
  · rw [htaken] at hdt
    split_ifs at hdt
    exact ⟨h.taken d j₁ r' hdt, fun n hn => h.apart d n j₁ r' hn hdt⟩

end Receiver

end Mail

end Smp

end MyOS.Arch
