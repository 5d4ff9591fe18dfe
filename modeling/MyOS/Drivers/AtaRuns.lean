import MyOS.Drivers.Ata

/-! Transfers of the two drives of a channel reach the drive and the sectors that were named, and
can be put in one order, when no command is set up before the last one has ended. -/

namespace MyOS.Drivers

open Library Fs Function

lemma drive_lba48 (b : Bool) :
    (decide ((0x40 ||| (b.toNat <<< 4)) / 16 % 2 = 1)) = b := by
  cases b <;> decide

lemma drive_lba28 (b : Bool) (x : ℕ) (hx : x < 16) :
    decide ((0xE0 ||| (b.toNat <<< 4) ||| x) / 16 % 2 = 1) = b ∧
      (0xE0 ||| (b.toNat <<< 4) ||| x) % 16 = x := by
  cases b <;> interval_cases x <;> decide

structure Names (r : TaskFile) (ext slave : Bool) (lba count : ℕ) : Prop where
  slave : r.slave = slave
  lba : r.lba ext = lba
  count : r.sectors ext = count

lemma names_setup (r : TaskFile) {d : AtaDrive} {slave : Bool} {lba count : ℕ} (h0 : 0 < count)
    (hn : count ≤ 256) (hl : lba + count ≤ d.sectors) :
    Names ((setupLba d.lba48 slave lba count).foldl TaskFile.outb r) d.lba48 slave lba count := by
  have hfits := d.fits
  cases hd : d.lba48 with
  | true =>
    rw [hd, if_pos rfl] at hfits
    refine ⟨drive_lba48 slave, ?_, ?_⟩
    · simp only [setupLba, if_true, List.foldl_cons, List.foldl_nil, TaskFile.outb, TaskFile.lba]
      omega
    · simp only [setupLba, if_true, List.foldl_cons, List.foldl_nil, TaskFile.outb,
        TaskFile.sectors]
      split_ifs <;> omega
  | false =>
    rw [hd, if_neg Bool.false_ne_true] at hfits
    have hx : (lba >>> 24) &&& 0x0F < 16 := Nat.lt_of_le_of_lt Nat.and_le_right (by decide)
    have hand : (lba >>> 24) &&& 0x0F = lba / 2 ^ 24 % 16 := by
      rw [show (0x0F : ℕ) = 2 ^ 4 - 1 from rfl, Nat.and_two_pow_sub_one_eq_mod,
        Nat.shiftRight_eq_div_pow]
    obtain ⟨hs, hm⟩ := drive_lba28 slave _ hx
    refine ⟨hs, ?_, ?_⟩
    · simp only [setupLba, Bool.false_eq_true, if_false, List.foldl_cons, List.foldl_nil,
        TaskFile.outb, TaskFile.lba]
      rw [hm, hand]
      omega
    · simp only [setupLba, Bool.false_eq_true, if_false, List.foldl_cons, List.foldl_nil,
        TaskFile.outb, TaskFile.sectors]
      split_ifs <;> omega

def BlkCall.upto (c : BlkCall) (len : ℕ) (disk : Bool → ℕ → UInt16) : Bool → ℕ → UInt16 :=
  fun d x =>
    if c.write = true ∧ d = c.slave ∧ c.lba * 256 ≤ x ∧ x < c.lba * 256 + len then
      c.buf (x - c.lba * 256)
    else disk d x

namespace BlkCall

variable {c : BlkCall} {len : ℕ} {disk disk' : Bool → ℕ → UInt16} {d : Bool}

lemma upto_zero : c.upto 0 disk d = disk d := by
  funext x
  simp only [upto]
  rw [if_neg (by omega)]

lemma upto_read (h : c.write = false) : c.upto len disk d = disk d := by
  funext x
  simp [upto, h]

lemma upto_other (h : d ≠ c.slave) : c.upto len disk d = disk d := by
  funext x
  simp [upto, h]

lemma upto_congr (h : disk d = disk' d) : c.upto len disk d = c.upto len disk' d := by
  funext x
  simp only [upto, h]

lemma upto_succ (h : c.write = true) :
    c.upto (len + 1) disk c.slave =
      update (c.upto len disk c.slave) (c.lba * 256 + len) (c.buf len) := by
  funext x
  by_cases hx : x = c.lba * 256 + len
  · subst hx
    simp [upto, h]
  · rw [update_of_ne hx]
    simp only [upto, h, true_and]
    have hiff : c.lba * 256 ≤ x ∧ x < c.lba * 256 + (len + 1) ↔
        c.lba * 256 ≤ x ∧ x < c.lba * 256 + len := by
      constructor <;> omega
    simp only [hiff]

end BlkCall

namespace AtaPc

def active : AtaPc → Prop
  | idle | skipped | done | failed => False
  | _ => True

def commanding : AtaPc → Prop
  | setup _ k => 0 < k
  | drq .. | data .. | flush _ => True
  | _ => False
end AtaPc

namespace Channel

variable {ι : Type} (C : Channel ι)

/-- The disks after the calls of a list, one at a time, the last one first in the list. -/
def serial : List ι → Bool → ℕ → UInt16
  | [] => C.before
  | c :: l => (C.call c).upto ((C.call c).count * 256) (serial l)

def Returned (s : ChannelState ι) : List ι → Prop
  | [] => True
  | c :: l => Returned s l ∧ ((C.call c).write = false → ∀ x < (C.call c).count * 256,
      s.read c x = C.serial l (C.call c).slave ((C.call c).lba * 256 + x))

structure Serial (s : ChannelState ι) : Prop where
  named : ∀ c pos i w, s.pc c = .data pos i w → s.regs.slave = (C.call c).slave ∧
    ∃ stop, s.mode (C.call c).slave =
      .transfer (C.call c).write (((C.call c).lba + pos + i) * 256 + w) stop
  noError : ∀ c, s.pc c ≠ .failed
  order : ∃ l : List ι, l.Nodup ∧ (∀ c, c ∈ l ↔ s.pc c = .done) ∧ C.Returned s l ∧
    ∀ d, s.lock d = none → s.disk d = C.serial l d

def Exclusive (s : ChannelState ι) : AtaAction ι → Prop
  | .outb c => ∀ pos, s.pc c = .setup pos 0 → ∀ c', ¬ (s.pc c').commanding
  | _ => True

def progress (c : ι) : AtaPc → ℕ
  | .ready pos | .setup pos _ => pos * 256
  | .drq pos i => (pos + i) * 256
  | .data pos i w => (pos + i) * 256 + w
  | .flush pos | .flushed pos => (pos + C.n c pos) * 256
  | _ => 0

def Bounds (c : ι) : AtaPc → Prop
  | .ready pos => pos ≤ (C.call c).count
  | .setup pos k => pos < (C.call c).count ∧ k ≤ (C.setup c pos).length
  | .drq pos i => pos < (C.call c).count ∧ i < C.n c pos
  | .data pos i w => pos < (C.call c).count ∧ i < C.n c pos ∧ w < 256
  | .flush pos | .flushed pos => pos < (C.call c).count
  | _ => True

def Task (regs : TaskFile) (mode : Bool → DriveMode) (c : ι) : AtaPc → Prop
  | .setup pos k => 0 < k → Names (((C.setup c pos).drop k).foldl TaskFile.outb regs)
      (C.lba48 c) (C.call c).slave ((C.call c).lba + pos) (C.n c pos)
  | .drq pos i => regs.slave = (C.call c).slave ∧ mode (C.call c).slave =
      .transfer (C.call c).write (((C.call c).lba + pos + i) * 256)
        (((C.call c).lba + pos + C.n c pos) * 256)
  | .data pos i w => regs.slave = (C.call c).slave ∧ mode (C.call c).slave =
      .transfer (C.call c).write (((C.call c).lba + pos + i) * 256 + w)
        (((C.call c).lba + pos + C.n c pos) * 256)
  | .flush _ => regs.slave = (C.call c).slave
  | _ => True

structure Running (s : ChannelState ι) (l : List ι) (c : ι) : Prop where
  fits : (C.call c).lba + (C.call c).count ≤ (C.drive (C.call c).slave).sectors
  lock : s.lock (C.call c).slave = some c
  bounds : C.Bounds c (s.pc c)
  task : C.Task s.regs s.mode c (s.pc c)
  disk : s.disk (C.call c).slave =
    (C.call c).upto (C.progress c (s.pc c)) (C.serial l) (C.call c).slave
  read : (C.call c).write = false → ∀ x < C.progress c (s.pc c),
    s.read c x = C.serial l (C.call c).slave ((C.call c).lba * 256 + x)

structure Invariant (s : ChannelState ι) (l : List ι) : Prop where
  running : ∀ c, (s.pc c).active → C.Running s l c
  single : ∀ c c', (s.pc c).commanding → (s.pc c').commanding → c = c'
  noError : ∀ c, s.pc c ≠ .failed
  nodup : l.Nodup
  ended : ∀ c, c ∈ l ↔ s.pc c = .done
  returned : C.Returned s l
  free : ∀ d, s.lock d = none → s.disk d = C.serial l d

variable {C} {s t : ChannelState ι} {l : List ι} {c c' : ι} {pos i w k : ℕ} {q : AtaPc}

lemma task_idle {regs : TaskFile} {mode : Bool → DriveMode} (h : ¬ q.commanding) :
    C.Task regs mode c q := by
  cases q with
  | setup pos k => exact fun hk => absurd hk h
  | drq | data | flush => exact absurd trivial h
  | _ => trivial

lemma returned_congr (h : C.Returned s l) (hr : ∀ c ∈ l, t.read c = s.read c) :
    C.Returned t l := by
  induction l with
  | nil => trivial
  | cons c l ih =>
    refine ⟨ih h.1 fun c' hc => hr c' (List.mem_cons_of_mem c hc), ?_⟩
    rw [hr c List.mem_cons_self]
    exact h.2

lemma Invariant.alone (h : C.Invariant s l) (hc : (s.pc c).commanding) :
    ∀ c' ≠ c, ¬ (s.pc c').commanding := by
  intro c' hne hc'
  exact hne (h.single c' c hc' hc)

lemma Invariant.apart (h : C.Invariant s l) (hc : (s.pc c).active) (hc' : (s.pc c').active)
    (hne : c' ≠ c) : (C.call c').slave ≠ (C.call c).slave := by
  intro hs
  have h₁ := (h.running c' hc').lock
  rw [hs, (h.running c hc).lock] at h₁
  exact hne (Option.some.inj h₁).symm

lemma Invariant.not_ended (h : C.Invariant s l) (hc : (s.pc c).active) : c ∉ l := by
  intro hl
  rw [(h.ended c).1 hl] at hc
  exact hc

lemma Running.names (h : C.Running s l c) (hc : s.pc c = .setup pos k) :
    Names (((C.setup c pos).drop k).foldl TaskFile.outb s.regs)
      (C.lba48 c) (C.call c).slave ((C.call c).lba + pos) (C.n c pos) := by
  have hb := h.bounds
  have ht := h.task
  rw [hc] at hb ht
  cases k with
  | zero =>
    have hp : pos < (C.call c).count := hb.1
    have hfits := h.fits
    have hn : C.n c pos ≤ (C.call c).count - pos := min_le_right _ _
    apply names_setup
    · simp only [n]
      omega
    · exact min_le_left _ _
    · omega
  | succ k => exact ht k.succ_pos

lemma setup_pos (c : ι) (pos : ℕ) : 0 < (C.setup c pos).length := by
  unfold setup setupLba
  split_ifs <;> exact Nat.succ_pos _

lemma progress_after (hi : i < C.n c pos) (hw : w < 256) :
    C.progress c (C.after c pos i w) = (pos + i) * 256 + w + 1 := by
  unfold after
  split_ifs
  · simp only [progress]
    omega
  · simp only [progress]
    omega
  · simp only [progress]
    omega
  · simp only [progress]
    omega

lemma bounds_after (hp : pos < (C.call c).count) (hi : i < C.n c pos) :
    C.Bounds c (C.after c pos i w) := by
  unfold after
  split_ifs with h₁ h₂ h₃
  · exact ⟨hp, hi, h₁⟩
  · exact ⟨hp, h₂⟩
  · exact hp
  · have hn : C.n c pos ≤ (C.call c).count - pos := min_le_right _ _
    simp only [Bounds]
    omega

lemma task_after {regs : TaskFile} {mode : Bool → DriveMode} (hi : i < C.n c pos) (hw : w < 256)
    (hs : regs.slave = (C.call c).slave) (hm : mode (C.call c).slave =
      .next (C.call c).write (((C.call c).lba + pos + i) * 256 + w)
        (((C.call c).lba + pos + C.n c pos) * 256)) :
    C.Task regs mode c (C.after c pos i w) := by
  unfold after
  split_ifs with h₁ h₂ h₃
  · refine ⟨hs, ?_⟩
    rw [hm, DriveMode.next, if_pos (by omega), Nat.add_assoc]
  · refine ⟨hs, ?_⟩
    have hnext : ((C.call c).lba + pos + i) * 256 + w + 1 =
        ((C.call c).lba + pos + (i + 1)) * 256 := by omega
    rw [hm, DriveMode.next, if_pos (by omega), hnext]
  · exact hs
  · trivial

lemma active_after : (C.after c pos i w).active := by
  unfold after
  split_ifs <;> trivial

lemma Running.other (h : C.Running s l c') {m : List ι}
    (hm : C.serial m (C.call c').slave = C.serial l (C.call c').slave)
    (hpc : t.pc c' = s.pc c') (hregs : t.regs = s.regs) (hmode : t.mode = s.mode)
    (hdisk : t.disk = s.disk) (hread : t.read = s.read)
    (hlock : t.lock (C.call c').slave = s.lock (C.call c').slave) : C.Running t m c' := by
  refine ⟨h.fits, hlock ▸ h.lock, ?_, ?_, ?_, ?_⟩
  · rw [hpc]
    exact h.bounds
  · rw [hpc, hregs, hmode]
    exact h.task
  · rw [hpc, hdisk, BlkCall.upto_congr hm]
    exact h.disk
  · rw [hpc, hread, hm]
    exact h.read

lemma fits_of_request {d n : ℕ} (hr : C.request c = .driver d n) :
    (C.call c).lba + (C.call c).count ≤ (C.drive (C.call c).slave).sectors := by
  obtain ⟨-, -, h₁, h₂⟩ := rw_driver hr
  have hl := (C.call c).lba_lt
  have hc := (C.call c).count_lt
  have hs : (BlockDevice.disk (C.drive (C.call c).slave).sectors).sectors =
    (C.drive (C.call c).slave).sectors := rfl
  rw [hs] at h₂
  have hmod : ((C.call c).lba + (C.call c).count) % 2 ^ 64 =
      (C.call c).lba + (C.call c).count := by omega
  rw [← hmod]
  exact h₂

variable [DecidableEq ι]

lemma Invariant.advance (h : C.Invariant s l) (t : ChannelState ι) (ha : (s.pc c).active)
    (hq : q.active) (hpc : t.pc = update s.pc c q) (hlock : t.lock = s.lock)
    (hregs : (t.regs = s.regs ∧ t.mode = s.mode ∧ (q.commanding → (s.pc c).commanding)) ∨
      ∀ c' ≠ c, ¬ (s.pc c').commanding)
    (hdisk : ∀ d ≠ (C.call c).slave, t.disk d = s.disk d)
    (hread : ∀ c' ≠ c, t.read c' = s.read c')
    (hbounds : C.Bounds c q) (htask : C.Task t.regs t.mode c q)
    (hown : t.disk (C.call c).slave =
      (C.call c).upto (C.progress c q) (C.serial l) (C.call c).slave)
    (hret : (C.call c).write = false → ∀ x < C.progress c q,
      t.read c x = C.serial l (C.call c).slave ((C.call c).lba * 256 + x)) :
    C.Invariant t l := by
  have hself : t.pc c = q := by rw [hpc, update_self]
  have hother : ∀ c' ≠ c, t.pc c' = s.pc c' := by
    intro c' hne
    rw [hpc, update_of_ne hne]
  have hr := h.running c ha
  refine ⟨?_, ?_, ?_, h.nodup, ?_, ?_, ?_⟩
  · intro c' hc'
    by_cases hne : c' = c
    · subst hne
      refine ⟨hr.fits, hlock ▸ hr.lock, ?_, ?_, ?_, ?_⟩
      · rw [hself]
        exact hbounds
      · rw [hself]
        exact htask
      · rw [hself]
        exact hown
      · rw [hself]
        exact hret
    · rw [hother c' hne] at hc'
      have hr' := h.running c' hc'
      refine ⟨hr'.fits, hlock ▸ hr'.lock, ?_, ?_, ?_, ?_⟩
      · rw [hother c' hne]
        exact hr'.bounds
      · rw [hother c' hne]
        rcases hregs with ⟨h₁, h₂, -⟩ | hregs
        · rw [h₁, h₂]
          exact hr'.task
        · exact task_idle (hregs c' hne)
      · rw [hother c' hne, hdisk _ (h.apart ha hc' hne)]
        exact hr'.disk
      · rw [hother c' hne, hread c' hne]
        exact hr'.read
  · have hlone : t.pc c = q → q.commanding → ∀ c' ≠ c, ¬ (s.pc c').commanding := by
      intro _ hqc
      rcases hregs with ⟨-, -, hk⟩ | hregs
      · exact h.alone (hk hqc)
      · exact hregs
    intro c₁ c₂ h₁ h₂
    by_cases hc₁ : c₁ = c
    · by_cases hc₂ : c₂ = c
      · rw [hc₁, hc₂]
      · rw [hc₁, hself] at h₁
        rw [hother c₂ hc₂] at h₂
        exact absurd h₂ (hlone hself h₁ c₂ hc₂)
    · rw [hother c₁ hc₁] at h₁
      by_cases hc₂ : c₂ = c
      · rw [hc₂, hself] at h₂
        exact absurd h₁ (hlone hself h₂ c₁ hc₁)
      · rw [hother c₂ hc₂] at h₂
        exact h.single c₁ c₂ h₁ h₂
  · intro c'
    by_cases hne : c' = c
    · rw [hne, hself]
      rintro rfl
      exact hq
    · rw [hother c' hne]
      exact h.noError c'
  · intro c'
    by_cases hne : c' = c
    · rw [hne, hself]
      refine ⟨fun hl => absurd hl (h.not_ended ha), ?_⟩
      rintro rfl
      exact absurd hq id
    · rw [hother c' hne]
      exact h.ended c'
  · apply returned_congr h.returned
    intro c' hl
    apply hread
    rintro rfl
    exact h.not_ended ha hl
  · intro d hd
    rw [hlock] at hd
    have hne : d ≠ (C.call c).slave := by
      rintro rfl
      rw [hr.lock] at hd
      cases hd
    rw [hdisk d hne]
    exact h.free d hd

omit [DecidableEq ι] in
lemma Invariant.at_pc (h : C.Invariant s l) {pc : AtaPc} (hc : s.pc c = pc) (ha : pc.active) :
    C.Bounds c pc ∧ C.Task s.regs s.mode c pc := by
  subst hc
  exact ⟨(h.running c ha).bounds, (h.running c ha).task⟩

lemma Invariant.goOn (h : C.Invariant s l) {pc : AtaPc} (hc : s.pc c = pc) (ha : pc.active)
    (hq : q.active) {regs : TaskFile} {mode : Bool → DriveMode}
    (hregs : (regs = s.regs ∧ mode = s.mode ∧ (q.commanding → pc.commanding)) ∨
      ∀ c' ≠ c, ¬ (s.pc c').commanding) (hprogress : C.progress c q = C.progress c pc)
    (hbounds : C.Bounds c q) (htask : C.Task regs mode c q) :
    C.Invariant { s with pc := update s.pc c q, regs := regs, mode := mode } l := by
  subst hc
  have hr := h.running c ha
  refine h.advance _ ha hq rfl rfl hregs (fun _ _ => rfl) (fun _ _ => rfl) hbounds htask ?_ ?_
  · exact hprogress ▸ hr.disk
  · exact hprogress ▸ hr.read

lemma Invariant.step_wait (h : C.Invariant s l) (hc : s.pc c = .ready pos)
    (hp : pos < (C.call c).count) :
    C.Invariant { s with pc := update s.pc c (.setup pos 0) } l :=
  h.goOn (q := .setup pos 0) hc trivial trivial (.inl ⟨rfl, rfl, fun hq => absurd hq (lt_irrefl 0)⟩)
    rfl ⟨hp, Nat.zero_le _⟩ fun hk => absurd hk (lt_irrefl 0)

lemma Invariant.step_outb (h : C.Invariant s l) (hc : s.pc c = .setup pos k) {v : Reg × ℕ}
    (hv : (C.setup c pos)[k]? = some v) (hx : k = 0 → ∀ c', ¬ (s.pc c').commanding) :
    C.Invariant { s with
      pc := update s.pc c (.setup pos (k + 1)), regs := s.regs.outb v } l := by
  have hnames := (h.running c (by rw [hc]; trivial)).names hc
  obtain ⟨hk, hget⟩ := List.getElem?_eq_some_iff.1 hv
  rw [List.drop_eq_getElem_cons hk, hget, List.foldl_cons] at hnames
  refine h.goOn (q := .setup pos (k + 1)) hc trivial trivial (.inr ?_) rfl
    ⟨(h.at_pc hc trivial).1.1, hk⟩ fun _ => hnames
  rcases Nat.eq_zero_or_pos k with h0 | h0
  · exact fun c' _ => hx h0 c'
  · apply h.alone
    rw [hc]
    exact h0

lemma Invariant.step_command (h : C.Invariant s l) (hc : s.pc c = .setup pos k)
    (hk : (C.setup c pos).length ≤ k) :
    C.Invariant { s with
      pc := update s.pc c (.drq pos 0)
      mode := update s.mode s.regs.slave
        (.transfer (C.call c).write (s.regs.lba (C.lba48 c) * 256)
          ((s.regs.lba (C.lba48 c) + s.regs.sectors (C.lba48 c)) * 256)) } l := by
  have hnames := (h.running c (by rw [hc]; trivial)).names hc
  rw [List.drop_eq_nil_of_le hk, List.foldl_nil] at hnames
  have hp : pos < (C.call c).count := (h.at_pc hc trivial).1.1
  refine h.goOn (q := .drq pos 0) hc trivial trivial (.inr ?_) rfl ⟨hp, ?_⟩ ⟨hnames.slave, ?_⟩
  · apply h.alone
    rw [hc]
    exact Nat.lt_of_lt_of_le (setup_pos c pos) hk
  · simp only [n]
    omega
  · simp only [hnames.slave, hnames.lba, hnames.count, update_self, Nat.add_zero]

lemma Invariant.step_drq (h : C.Invariant s l) (hc : s.pc c = .drq pos i) :
    C.Invariant { s with pc := update s.pc c (.data pos i 0) } l := by
  obtain ⟨hbounds, htask⟩ := h.at_pc hc trivial
  refine h.goOn (q := .data pos i 0) hc trivial trivial (.inl ⟨rfl, rfl, fun _ => trivial⟩) ?_
    ⟨hbounds.1, hbounds.2, by decide⟩ ?_
  · simp only [progress, Nat.add_zero]
  · simpa only [Task, Nat.add_zero] using htask

lemma Invariant.step_insw (h : C.Invariant s l) (hc : s.pc c = .data pos i w)
    (hw : (C.call c).write = false) {v : UInt16} (hv : ∀ x, s.inw = some x → v = x) :
    C.Invariant { s.afterIn with
      pc := update s.pc c (C.after c pos i w)
      read := update s.read c
        (update (s.read c) ((pos + i) * 256 + w) v) } l := by
  have hr := h.running c (by rw [hc]; trivial)
  have hbounds := hr.bounds
  have htask := hr.task
  have hdisk := hr.disk
  have hread := hr.read
  rw [hc] at hbounds htask hdisk hread
  obtain ⟨hp, hi, hlt⟩ := hbounds
  obtain ⟨hslave, hmode⟩ := htask
  rw [hw] at hmode
  have hafter : s.afterIn = { s with
      mode := update s.mode (C.call c).slave
        (.next false (((C.call c).lba + pos + i) * 256 + w)
          (((C.call c).lba + pos + C.n c pos) * 256)) } := by
    unfold ChannelState.afterIn
    rw [hslave, hmode]
  have hin : s.inw = some (s.disk (C.call c).slave (((C.call c).lba + pos + i) * 256 + w)) := by
    unfold ChannelState.inw
    rw [hslave, hmode]
  rw [hafter]
  apply h.advance _ (c := c) (q := C.after c pos i w)
  · rw [hc]
    trivial
  · exact active_after
  · rfl
  · rfl
  · right
    apply h.alone
    rw [hc]
    trivial
  · exact fun _ _ => rfl
  · exact fun c' hne => update_of_ne hne _ _
  · exact bounds_after hp hi
  · apply task_after hi hlt hslave
    rw [hw]
    exact update_self ..
  · rw [BlkCall.upto_read hw] at hdisk ⊢
    exact hdisk
  · intro _ x hx
    rw [progress_after hi hlt] at hx
    simp only [update_self]
    by_cases hxw : x = (pos + i) * 256 + w
    · have hpos : ((C.call c).lba + pos + i) * 256 + w = (C.call c).lba * 256 + x := by
        rw [hxw]
        ring
      rw [BlkCall.upto_read hw] at hdisk
      rw [← hpos, ← hxw, update_self, hv _ hin, hdisk]
    · rw [update_of_ne hxw]
      exact hread hw x (Nat.lt_of_le_of_ne (Nat.le_of_lt_succ hx) hxw)

lemma Invariant.step_outsw (h : C.Invariant s l) (hc : s.pc c = .data pos i w)
    (hw : (C.call c).write = true) :
    C.Invariant { s.outw ((C.call c).buf ((pos + i) * 256 + w)) with
      pc := update s.pc c (C.after c pos i w) } l := by
  have hr := h.running c (by rw [hc]; trivial)
  have hbounds := hr.bounds
  have htask := hr.task
  have hdisk := hr.disk
  rw [hc] at hbounds htask hdisk
  obtain ⟨hp, hi, hlt⟩ := hbounds
  obtain ⟨hslave, hmode⟩ := htask
  rw [hw] at hmode
  have hout : s.outw ((C.call c).buf ((pos + i) * 256 + w)) = { s with
      mode := update s.mode (C.call c).slave
        (.next true (((C.call c).lba + pos + i) * 256 + w)
          (((C.call c).lba + pos + C.n c pos) * 256))
      disk := update s.disk (C.call c).slave
        (update (s.disk (C.call c).slave) (((C.call c).lba + pos + i) * 256 + w)
          ((C.call c).buf ((pos + i) * 256 + w))) } := by
    unfold ChannelState.outw
    rw [hslave, hmode]
  rw [hout]
  apply h.advance _ (c := c) (q := C.after c pos i w)
  · rw [hc]
    trivial
  · exact active_after
  · rfl
  · rfl
  · right
    apply h.alone
    rw [hc]
    trivial
  · exact fun d hd => update_of_ne hd _ _
  · exact fun _ _ => rfl
  · exact bounds_after hp hi
  · apply task_after hi hlt hslave
    rw [hw]
    exact update_self ..
  · have hpos : ((C.call c).lba + pos + i) * 256 + w =
        (C.call c).lba * 256 + ((pos + i) * 256 + w) := by ring
    rw [progress_after hi hlt, BlkCall.upto_succ hw]
    simp only [update_self]
    rw [hpos, hdisk]
    rfl
  · intro hf
    rw [hw] at hf
    cases hf

lemma Invariant.step_flush (h : C.Invariant s l) (hc : s.pc c = .flush pos) :
    C.Invariant { s with
      pc := update s.pc c (.flushed pos)
      mode := update s.mode s.regs.slave .idle } l := by
  refine h.goOn (q := .flushed pos) hc trivial trivial (.inr ?_) rfl (h.at_pc hc trivial).1 trivial
  apply h.alone
  rw [hc]
  trivial

lemma Invariant.step_flushed (h : C.Invariant s l) (hc : s.pc c = .flushed pos) :
    C.Invariant { s with pc := update s.pc c (.ready (pos + C.n c pos)) } l := by
  have hp : pos < (C.call c).count := (h.at_pc hc trivial).1
  refine h.goOn (q := .ready (pos + C.n c pos)) hc trivial trivial (.inl ⟨rfl, rfl, fun hq => absurd hq id⟩)
    rfl ?_ trivial
  have hn : C.n c pos ≤ (C.call c).count - pos := min_le_right _ _
  simp only [Bounds]
  omega

lemma Invariant.single_update (h : C.Invariant s l) (hq : ¬ q.commanding) (c₁ c₂ : ι)
    (h₁ : (update s.pc c q c₁).commanding)
    (h₂ : (update s.pc c q c₂).commanding) : c₁ = c₂ := by
  have hother : ∀ c', (update s.pc c q c').commanding → (s.pc c').commanding := by
    intro c' hc'
    by_cases hne : c' = c
    · rw [hne, update_self] at hc'
      exact absurd hc' hq
    · rwa [update_of_ne hne] at hc'
  exact h.single c₁ c₂ (hother c₁ h₁) (hother c₂ h₂)

lemma Invariant.noError_update (h : C.Invariant s l) (hq : q ≠ .failed) (c' : ι) :
    update s.pc c q c' ≠ .failed := by
  by_cases hne : c' = c
  · rwa [hne, update_self]
  · rw [update_of_ne hne]
    exact h.noError c'

lemma Invariant.ended_update (h : C.Invariant s l) (hc : s.pc c ≠ .done) (hq : q ≠ .done)
    (c' : ι) : c' ∈ l ↔ update s.pc c q c' = .done := by
  by_cases hne : c' = c
  · rw [hne, update_self, h.ended]
    exact ⟨fun hd => absurd hd hc, fun hd => absurd hd hq⟩
  · rw [update_of_ne hne]
    exact h.ended c'

lemma Invariant.step_skip (h : C.Invariant s l) (hc : s.pc c = .idle) :
    C.Invariant { s with pc := update s.pc c .skipped } l := by
  refine ⟨?_, h.single_update id, h.noError_update AtaPc.noConfusion, h.nodup,
    h.ended_update (by simp [hc]) AtaPc.noConfusion, returned_congr h.returned fun _ _ => rfl,
    h.free⟩
  intro c' ha
  by_cases hne : c' = c
  · simp [hne, AtaPc.active] at ha
  · have hpc : update s.pc c .skipped c' = s.pc c' := update_of_ne hne _ _
    simp only [hpc] at ha
    exact (h.running c' ha).other rfl hpc rfl rfl rfl rfl rfl

lemma Invariant.step_start (h : C.Invariant s l) (hc : s.pc c = .idle) {d n : ℕ}
    (hr : C.request c = .driver d n) (hl : s.lock (C.call c).slave = none) :
    C.Invariant { s with
      pc := update s.pc c (.ready 0)
      lock := update s.lock (C.call c).slave (some c) } l := by
  refine ⟨?_, h.single_update id, h.noError_update AtaPc.noConfusion, h.nodup,
    h.ended_update (by simp [hc]) AtaPc.noConfusion, returned_congr h.returned fun _ _ => rfl, ?_⟩
  · intro c' ha
    by_cases hne : c' = c
    · subst hne
      refine ⟨fits_of_request hr, update_self .., ?_, ?_, ?_, ?_⟩
      · simp [Bounds]
      · simp [Task]
      · simp only [update_self, progress, Nat.zero_mul]
        rw [BlkCall.upto_zero]
        exact h.free _ hl
      · simp [progress]
    · have hpc : update s.pc c (.ready 0) c' = s.pc c' := update_of_ne hne _ _
      simp only [hpc] at ha
      have hrun := h.running c' ha
      have hd : (C.call c').slave ≠ (C.call c).slave := by
        intro hd
        rw [← hd, hrun.lock] at hl
        cases hl
      exact hrun.other rfl hpc rfl rfl rfl rfl (update_of_ne hd _ _)
  · intro d hd
    by_cases hne : d = (C.call c).slave
    · simp [hne] at hd
    · simp only [update_of_ne hne] at hd
      exact h.free d hd

lemma Invariant.step_finish (h : C.Invariant s l) (hc : s.pc c = .ready pos)
    (hp : (C.call c).count ≤ pos) :
    C.Invariant { s with
      pc := update s.pc c .done
      lock := update s.lock (C.call c).slave none } (c :: l) := by
  have hact : (s.pc c).active := by
    rw [hc]
    trivial
  have hr := h.running c hact
  have hbounds := hr.bounds
  have hdisk := hr.disk
  have hread := hr.read
  rw [hc] at hbounds hdisk hread
  obtain rfl : pos = (C.call c).count := Nat.le_antisymm hbounds hp
  refine ⟨?_, h.single_update id, h.noError_update AtaPc.noConfusion,
    List.nodup_cons.2 ⟨h.not_ended hact, h.nodup⟩, ?_, ?_, ?_⟩
  · intro c' ha
    by_cases hne : c' = c
    · simp [hne, AtaPc.active] at ha
    · have hpc : update s.pc c .done c' = s.pc c' := update_of_ne hne _ _
      simp only [hpc] at ha
      have hd := h.apart hact ha hne
      exact (h.running c' ha).other (BlkCall.upto_other hd) hpc rfl rfl rfl rfl
        (update_of_ne hd _ _)
  · intro c'
    by_cases hne : c' = c
    · simp [hne]
    · simp only [update_of_ne hne, List.mem_cons, hne, false_or]
      exact h.ended c'
  · exact ⟨returned_congr h.returned fun _ _ => rfl, hread⟩
  · intro d hd
    by_cases hne : d = (C.call c).slave
    · subst hne
      exact hdisk
    · simp only [update_of_ne hne] at hd
      rw [show C.serial (c :: l) d = C.serial l d from BlkCall.upto_other hne]
      exact h.free d hd

lemma Invariant.step {a : AtaAction ι} (h : C.Invariant s l) (hx : Exclusive s a)
    (hs : C.Step s a t) : ∃ m, C.Invariant t m := by
  cases hs with
  | skip hc _ => exact ⟨l, h.step_skip hc⟩
  | start hc hr hl => exact ⟨l, h.step_start hc hr hl⟩
  | poll => exact ⟨l, h⟩
  | wait hc hp => exact ⟨l, h.step_wait hc hp⟩
  | outb hc hv =>
    refine ⟨l, h.step_outb hc hv ?_⟩
    rintro rfl
    exact hx _ hc
  | command hc hk => exact ⟨l, h.step_command hc hk⟩
  | drq hc _ => exact ⟨l, h.step_drq hc⟩
  | noDrq hc hd =>
    -- in a command of its own a call finds the drive ready
    exfalso
    have htask := (h.running _ (by rw [hc]; trivial)).task
    rw [hc] at htask
    rw [htask.1, htask.2] at hd
    cases hd
  | insw hc hw hv => exact ⟨l, h.step_insw hc hw hv⟩
  | outsw hc hw => exact ⟨l, h.step_outsw hc hw⟩
  | flush hc => exact ⟨l, h.step_flush hc⟩
  | flushed hc => exact ⟨l, h.step_flushed hc⟩
  | finish hc hp => exact ⟨_, h.step_finish hc hp⟩

lemma invariant_run (h : (C.system.guarded Exclusive).Reachable s) : ∃ l, C.Invariant s l := by
  induction h with
  | @init s h =>
    obtain ⟨hdisk, -, hpc⟩ := h
    refine ⟨[], ?_, ?_, ?_, List.nodup_nil, ?_, trivial, ?_⟩
    · intro c hc
      rw [hpc] at hc
      exact absurd hc id
    · intro c c' hc
      rw [hpc] at hc
      exact absurd hc id
    · intro c
      simp [hpc]
    · intro c
      simp [hpc]
    · intro d _
      rw [hdisk]
      rfl
  | step a _ hs ih =>
    obtain ⟨l, hl⟩ := ih
    exact hl.step hs.1 hs.2

theorem exclusive_serial (C : Channel ι) (s : ChannelState ι)
    (h : (C.system.guarded Exclusive).Reachable s) : C.Serial s := by
  obtain ⟨l, hl⟩ := invariant_run h
  refine ⟨?_, hl.noError, l, hl.nodup, hl.ended, hl.returned, hl.free⟩
  intro c pos i w hc
  have htask := (hl.running c (by rw [hc]; trivial)).task
  rw [hc] at htask
  exact ⟨htask.1, _, htask.2⟩

section TwoDrives

lemma reachable_next (a : AtaAction ι) (h : C.system.Reachable s) (hs : C.Step s a t) :
    C.system.Reachable t := .step a h hs

lemma exclusive_next (a : AtaAction ι) (h : (C.system.guarded Exclusive).Reachable s)
    (hx : Exclusive s a) (hs : C.Step s a t) : (C.system.guarded Exclusive).Reachable t :=
  .step a h ⟨hx, hs⟩

def smallDrive : AtaDrive := ⟨false, 8, by decide⟩

def twoDrives : Channel Bool where
  drive _ := smallDrive
  before _ _ := 0
  call c := ⟨c, !c, 0, 1, fun _ => 1, by decide, by decide⟩

def twoDrivesStart : ChannelState Bool where
  regs := ⟨0, (0, 0), (0, 0), (0, 0), (0, 0)⟩
  mode _ := .idle
  disk _ _ := 0
  lock _ := none
  pc _ := .idle
  read _ _ := 0

lemma registersSet : ∃ s, (twoDrives.system.guarded Exclusive).Reachable s ∧
    s.pc false = .setup 0 5 ∧ s.pc true = .idle ∧ s.lock true = none ∧ s.regs.slave = false ∧
      s.regs.lba false = 0 ∧ s.regs.sectors false = 1 := by
  have h₀ : (twoDrives.system.guarded Exclusive).Reachable twoDrivesStart :=
    .init ⟨rfl, fun _ => rfl, fun _ => rfl⟩
  have h₁ := exclusive_next (.start false) h₀ trivial (.start (l := 0) (n := 1) rfl rfl rfl)
  have h₂ := exclusive_next (.wait false) h₁ trivial
    (.wait (show _ = AtaPc.ready 0 from rfl) (by decide))
  have h₃ := exclusive_next (.outb false) h₂ (by
      intro pos _ c'
      cases c' with
      | false => exact lt_irrefl 0
      | true => exact id)
    (.outb (show _ = AtaPc.setup 0 0 from rfl) rfl)
  have h₄ := exclusive_next (.outb false) h₃ (fun _ hp => by cases hp)
    (.outb (show _ = AtaPc.setup 0 1 from rfl) rfl)
  have h₅ := exclusive_next (.outb false) h₄ (fun _ hp => by cases hp)
    (.outb (show _ = AtaPc.setup 0 2 from rfl) rfl)
  have h₆ := exclusive_next (.outb false) h₅ (fun _ hp => by cases hp)
    (.outb (show _ = AtaPc.setup 0 3 from rfl) rfl)
  have h₇ := exclusive_next (.outb false) h₆ (fun _ hp => by cases hp)
    (.outb (show _ = AtaPc.setup 0 4 from rfl) rfl)
  exact ⟨_, h₇, rfl, rfl, rfl, rfl, rfl, rfl⟩

lemma wordWritten {s : ChannelState Bool} {w : ℕ} (h : (twoDrives.system.guarded Exclusive).Reachable s)
    (hpc : s.pc false = .data 0 0 w) (hr : s.regs.slave = false) (hm : s.mode false = .transfer true w 256)
    (hd : 0 < w → s.disk false 0 = 1) : ∃ t, (twoDrives.system.guarded Exclusive).Reachable t ∧
      t.pc false = twoDrives.after false 0 0 w ∧ t.regs.slave = false ∧ t.mode false = .next true w 256 ∧
      t.disk false 0 = 1 := by
  refine ⟨_, exclusive_next (.outsw false) h trivial (.outsw hpc rfl), rfl, ?_⟩
  rw [ChannelState.outw, hr, hm]
  refine ⟨hr, rfl, ?_⟩
  simp only [update_self]
  rcases Nat.eq_zero_or_pos w with rfl | hw
  · exact update_self ..
  · rw [update_of_ne (by omega), hd hw]

lemma wordsWritten {s : ChannelState Bool} {w n : ℕ} (h : (twoDrives.system.guarded Exclusive).Reachable s)
    (hn : w + n + 1 = 256) (hpc : s.pc false = .data 0 0 w) (hr : s.regs.slave = false)
    (hm : s.mode false = .transfer true w 256) (hd : 0 < w → s.disk false 0 = 1) :
    ∃ t, (twoDrives.system.guarded Exclusive).Reachable t ∧ t.pc false = .flush 0 ∧ t.disk false 0 = 1 := by
  induction n generalizing s w with
  | zero =>
    obtain rfl : w = 255 := by omega
    obtain ⟨t, ht, hpc, -, -, hd⟩ := wordWritten h hpc hr hm hd
    exact ⟨t, ht, hpc, hd⟩
  | succ n ih =>
    obtain ⟨t, ht, hpc, hr, hm, hd⟩ := wordWritten h hpc hr hm hd
    rw [after, if_pos (by omega)] at hpc
    rw [DriveMode.next, if_pos (by omega)] at hm
    exact ih ht (by omega) hpc hr hm fun _ => hd

theorem exclusive_serial_sectorWritten : ∃ s : ChannelState Bool, s.pc false = .done ∧ s.disk false 0 = 1 ∧
    twoDrives.Serial s := by
  obtain ⟨s, h, hpc, -, -, hr, hlba, hn⟩ := registersSet
  have h₁ := exclusive_next (.command false) h trivial (.command hpc (by decide))
  have hmode : update s.mode s.regs.slave (.transfer true (s.regs.lba false * 256)
      ((s.regs.lba false + s.regs.sectors false) * 256)) false = .transfer true 0 256 := by
    rw [hr, hlba, hn, update_self]
  rw [show twoDrives.lba48 false = false from rfl, show (twoDrives.call false).write = true from rfl] at h₁
  have h₂ := exclusive_next (.drq false) h₁ trivial (.drq (show _ = AtaPc.drq 0 0 from rfl) (by
    simp only [update_self]
    exact DriveMode.noConfusion))
  obtain ⟨t, h₃, hpc, hd⟩ := wordsWritten (w := 0) (n := 255) h₂ rfl rfl hr hmode (absurd · (lt_irrefl 0))
  have h₄ := exclusive_next (.flush false) h₃ trivial (.flush hpc)
  have h₅ := exclusive_next (.flushed false) h₄ trivial (.flushed (show _ = AtaPc.flushed 0 from rfl))
  have h₆ := exclusive_next (.finish false) h₅ trivial (.finish (show _ = AtaPc.ready 1 from rfl) le_rfl)
  refine ⟨_, ?_, ?_, exclusive_serial twoDrives _ h₆⟩
  · rfl
  · exact hd

theorem not_serial_twoDrives : ¬ ∀ (C : Channel Bool) (s : ChannelState Bool),
    C.system.Reachable s → C.Serial s := by
  intro h
  obtain ⟨s, hs, hf, ht, hl, -⟩ := registersSet
  have h₁ := reachable_next (.start true) hs.of_guarded (.start (l := 0) (n := 1) ht rfl hl)
  have h₂ := reachable_next (.wait true) h₁
    (.wait (show _ = AtaPc.ready 0 from rfl) (by decide))
  have h₃ := reachable_next (.outb true) h₂
    (.outb (show _ = AtaPc.setup 0 0 from rfl) rfl)
  have h₄ := reachable_next (.command false) h₃ (.command (show _ = AtaPc.setup 0 5 from hf) (by decide))
  have h₅ := reachable_next (.drq false) h₄
    (.drq (show _ = AtaPc.drq 0 0 from rfl) (by simp [TaskFile.slave, twoDrives]))
  have hn := ((h twoDrives _ h₅).named false 0 0 0 rfl).1
  simp [TaskFile.slave, TaskFile.outb, twoDrives] at hn

end TwoDrives

end Channel

end MyOS.Drivers
