import MyOS.Fs.Partition
import MyOS.Library.System

/-! `bdev_write`: writes of byte ranges to a block device, a sector at a time. -/

namespace MyOS.Fs

open Library Function

structure RawCall where
  off : ℕ
  data : List UInt8

def RawCall.accepted (c : RawCall) (total : ℕ) : List UInt8 := c.data.take (total - c.off)

/-- Where a call is. At `loaded` it has read the sector that it changes in part, and has not written
it yet. -/
inductive RawPc
  | idle
  | writing (done : ℕ)
  | loaded (done : ℕ) (sec : Sector)
  | ended (done : ℕ)

def RawPc.done : RawPc → ℕ
  | .idle => 0
  | .writing n | .loaded n _ | .ended n => n

structure RawState (ι : Type) where
  disk : ℕ → UInt8
  pc : ι → RawPc

inductive RawAction (ι : Type)
  | start (i : ι) (mem : Bool)
  | read (i : ι)
  | write (i : ι)
  | finish (i : ι)

structure RawSystem (ι : Type) where
  sectors : ℕ
  call : ι → RawCall
  before : ℕ → UInt8

namespace RawSystem

variable {ι : Type} [DecidableEq ι] (R : RawSystem ι)

def data (i : ι) : List UInt8 := (R.call i).accepted (R.sectors * 512)

def pos (i : ι) (done : ℕ) : ℕ := (R.call i).off + done

def lba (i : ι) (done : ℕ) : ℕ := R.pos i done / 512

def chunk (i : ι) (done : ℕ) : ℕ :=
  min ((R.data i).length - done) (512 - R.pos i done % 512)

def sectorAt (disk : ℕ → UInt8) (lba : ℕ) : Sector := fun k => disk (lba * 512 + k)

def putSector (disk : ℕ → UInt8) (lba : ℕ) (sec : Sector) : ℕ → UInt8 := fun x =>
  if lba * 512 ≤ x ∧ x < lba * 512 + 512 then sec (x - lba * 512) else disk x

def fillSector (i : ι) (done : ℕ) (sec : Sector) : Sector :=
  Bytes.store sec (R.pos i done % 512) (((R.data i).drop done).take (R.chunk i done))

/-- Each `blk_read` and `blk_write` is one step; a whole sector is not read before it is written, the
buffer then holds anything. -/
inductive Step : RawState ι → RawAction ι → RawState ι → Prop
  | start {s i mem} (h : s.pc i = .idle) :
      Step s (.start i mem)
        { s with pc := update s.pc i (if mem then .writing 0 else .ended 0) }
  | read {s i done} (h : s.pc i = .writing done) (hd : done < (R.data i).length)
      (hc : R.chunk i done ≠ 512) :
      Step s (.read i)
        { s with pc := update s.pc i (.loaded done (sectorAt s.disk (R.lba i done))) }
  | write {s i done sec}
      (h : s.pc i = .loaded done sec ∨
        s.pc i = .writing done ∧ done < (R.data i).length ∧ R.chunk i done = 512) :
      Step s (.write i)
        { s with
          disk := putSector s.disk (R.lba i done) (R.fillSector i done sec)
          pc := update s.pc i (.writing (done + R.chunk i done)) }
  | finish {s i done} (h : s.pc i = .writing done) (hd : (R.data i).length ≤ done) :
      Step s (.finish i) { s with pc := update s.pc i (.ended done) }

def system : System (RawState ι) (RawAction ι) where
  init s := s.disk = R.before ∧ ∀ i, s.pc i = .idle
  step := R.Step

def Disjoint : Prop := ∀ i j, i ≠ j → ∀ x,
  ¬ ((R.call i).off ≤ x ∧ x < (R.call i).off + (R.data i).length ∧
    (R.call j).off ≤ x ∧ x < (R.call j).off + (R.data j).length)

end RawSystem

end MyOS.Fs

/-! Raw writes of disjoint ranges lose nothing, unless a sector is written while another call holds
a copy of it. -/

namespace MyOS.Fs

open Library Function

namespace RawSystem

variable {ι : Type} {R : RawSystem ι} {s t : RawState ι} {a : RawAction ι} {i : ι}

lemma pos_eq (n : ℕ) : R.lba i n * 512 + R.pos i n % 512 = R.pos i n := by
  unfold lba
  omega

lemma length_piece {n : ℕ} : (((R.data i).drop n).take (R.chunk i n)).length = R.chunk i n := by
  rw [List.length_take, List.length_drop]
  unfold chunk
  omega

def Covers (R : RawSystem ι) (s : RawState ι) (i : ι) (x : ℕ) : Prop :=
  (R.call i).off ≤ x ∧ x < (R.call i).off + (s.pc i).done

structure NothingLost (R : RawSystem ι) (s : RawState ι) : Prop where
  written : ∀ i x, R.Covers s i x → s.disk x = (R.data i).getD (x - (R.call i).off) 0
  unchanged : ∀ x, (∀ i, ¬ R.Covers s i x) → s.disk x = R.before x
  complete : ∀ i n, s.pc i = .ended n → n = (R.data i).length ∨ n = 0

def Unshared (R : RawSystem ι) (s : RawState ι) : RawAction ι → Prop
  | .write i => ∀ j m sec, j ≠ i → s.pc j = .loaded m sec → R.lba j m ≠ R.lba i (s.pc i).done
  | _ => True

structure RawInvariant (R : RawSystem ι) (s : RawState ι) : Prop extends NothingLost R s where
  le : ∀ i, (s.pc i).done ≤ (R.data i).length
  copy : ∀ i n sec, s.pc i = .loaded n sec →
    n < (R.data i).length ∧ ∀ k < 512, sec k = s.disk (R.lba i n * 512 + k)

lemma putSector_fill {disk : ℕ → UInt8} {n : ℕ} {sec : Sector}
    (hcopy : R.chunk i n ≠ 512 → ∀ k < 512, sec k = disk (R.lba i n * 512 + k)) (x : ℕ) :
    putSector disk (R.lba i n) (R.fillSector i n sec) x =
      if R.pos i n ≤ x ∧ x < R.pos i n + R.chunk i n then
        (R.data i).getD (x - (R.call i).off) 0
      else disk x := by
  have hpos := R.pos_eq (i := i) n
  have hmod := Nat.mod_lt (R.pos i n) (show 0 < 512 by decide)
  have hchunk : R.chunk i n ≤ 512 - R.pos i n % 512 := Nat.min_le_right _ _
  have hoff : R.pos i n = (R.call i).off + n := rfl
  unfold putSector
  by_cases hin : R.lba i n * 512 ≤ x ∧ x < R.lba i n * 512 + 512
  · rw [if_pos hin]
    unfold fillSector Bytes.store
    rw [length_piece]
    by_cases hp : R.pos i n ≤ x ∧ x < R.pos i n + R.chunk i n
    · have hidx : x - R.lba i n * 512 - R.pos i n % 512 = x - R.pos i n := by omega
      have hget : n + (x - R.pos i n) = x - (R.call i).off := by omega
      rw [if_pos (by omega), if_pos hp, hidx, List.getD_eq_getElem?_getD,
        List.getElem?_take_of_lt (by omega), List.getElem?_drop, hget,
        List.getD_eq_getElem?_getD]
    · have hne : R.chunk i n ≠ 512 := by omega
      rw [if_neg (by omega), if_neg hp, hcopy hne _ (by omega)]
      congr 1
      omega
  · rw [if_neg hin, if_neg (by omega)]

variable [DecidableEq ι]

lemma Covers.of_ne {q : RawPc} {j : ι} {x : ℕ} {d : ℕ → UInt8} (h : j ≠ i) :
    R.Covers { s with disk := d, pc := update s.pc i q } j x ↔ R.Covers s j x := by
  unfold Covers
  simp only [update_of_ne h]

lemma RawInvariant.step_idle (h : RawInvariant R s) {q : RawPc} (hd : q.done = (s.pc i).done)
    (hl : ∀ n sec, q = .loaded n sec →
      n < (R.data i).length ∧ ∀ k < 512, sec k = s.disk (R.lba i n * 512 + k))
    (he : ∀ n, q = .ended n → n = (R.data i).length ∨ n = 0) :
    RawInvariant R { s with pc := update s.pc i q } := by
  have hdone : ∀ j, (update s.pc i q j).done = (s.pc j).done := by
    intro j
    by_cases hj : j = i
    · subst hj
      rw [update_self, hd]
    · rw [update_of_ne hj]
  have hcov : ∀ j x, R.Covers { s with pc := update s.pc i q } j x ↔ R.Covers s j x := by
    intro j x
    unfold Covers
    simp only [hdone]
  refine ⟨⟨?_, ?_, ?_⟩, ?_, ?_⟩
  · intro j x hx
    exact h.written j x ((hcov j x).1 hx)
  · intro x hx
    exact h.unchanged x fun j hj => hx j ((hcov j x).2 hj)
  · intro j n hn
    by_cases hj : j = i
    · subst hj
      exact he n (by simpa using hn)
    · exact h.complete j n (by simpa [hj] using hn)
  · intro j
    simpa only [hdone] using h.le j
  · intro j n sec hn
    by_cases hj : j = i
    · subst hj
      exact hl n sec (by simpa using hn)
    · exact h.copy j n sec (by simpa [hj] using hn)

lemma RawInvariant.step_write (hdis : R.Disjoint) (h : RawInvariant R s) {n : ℕ} {sec : Sector}
    (hn : (s.pc i).done = n) (hlt : n < (R.data i).length)
    (hcopy : R.chunk i n ≠ 512 → ∀ k < 512, sec k = s.disk (R.lba i n * 512 + k))
    (hun : R.Unshared s (.write i)) :
    RawInvariant R { s with
      disk := putSector s.disk (R.lba i n) (R.fillSector i n sec)
      pc := update s.pc i (.writing (n + R.chunk i n)) } := by
  have hput := R.putSector_fill hcopy
  have hchunk : R.chunk i n ≤ (R.data i).length - n := Nat.min_le_left _ _
  have hoff : R.pos i n = (R.call i).off + n := rfl
  -- the bytes of the chunk belong to no other call
  have hother : ∀ j x, j ≠ i → R.Covers s j x → ¬ (R.pos i n ≤ x ∧ x < R.pos i n + R.chunk i n) := by
    intro j x hj hx hp
    have := h.le j
    exact hdis j i hj x ⟨hx.1, lt_of_lt_of_le hx.2 (by omega), by omega, by omega⟩
  refine ⟨⟨?_, ?_, ?_⟩, ?_, ?_⟩
  · intro j x hx
    simp only
    rw [hput]
    by_cases hj : j = i
    · subst hj
      by_cases hp : R.pos j n ≤ x ∧ x < R.pos j n + R.chunk j n
      · rw [if_pos hp]
      · rw [if_neg hp]
        unfold Covers at hx
        simp only [update_self, RawPc.done] at hx
        exact h.written j x ⟨hx.1, by rw [hn]; omega⟩
    · have hx' := (Covers.of_ne hj).1 hx
      rw [if_neg (hother j x hj hx'), h.written j x hx']
  · intro x hx
    simp only
    have hi := hx i
    unfold Covers at hi
    simp only [update_self, RawPc.done] at hi
    rw [hput, if_neg (by omega)]
    apply h.unchanged
    intro j hj
    by_cases hji : j = i
    · subst hji
      have := hj.1
      have := hj.2
      omega
    · exact hx j ((Covers.of_ne hji).2 hj)
  · intro j m hm
    by_cases hj : j = i
    · subst hj
      simp at hm
    · exact h.complete j m (by simpa [hj] using hm)
  · intro j
    by_cases hj : j = i
    · subst hj
      simp only [update_self, RawPc.done]
      omega
    · simpa [hj] using h.le j
  · intro j m sec' hm
    by_cases hj : j = i
    · subst hj
      simp at hm
    · have hm' : s.pc j = .loaded m sec' := by simpa [hj] using hm
      obtain ⟨h₁, h₂⟩ := h.copy j m sec' hm'
      refine ⟨h₁, ?_⟩
      intro k hk
      have hne := hun j m sec' hj hm'
      rw [hn] at hne
      simp only
      rw [h₂ k hk]
      unfold putSector
      rw [if_neg]
      intro hin
      apply hne
      omega

lemma RawInvariant.step (hdis : R.Disjoint) (h : RawInvariant R s) (hs : R.Step s a t)
    (hun : R.Unshared s a) : RawInvariant R t := by
  cases hs with
  | @start i mem hpc =>
    apply h.step_idle
    · cases mem <;> simp [hpc, RawPc.done]
    · intro n sec hq
      cases mem <;> simp at hq
    · intro n hq
      cases mem <;> simp at hq
      exact .inr hq.symm
  | @read i n hpc hd hc =>
    apply h.step_idle
    · simp [hpc, RawPc.done]
    · intro m sec hq
      obtain ⟨rfl, rfl⟩ := RawPc.loaded.inj hq
      exact ⟨hd, fun k hk => rfl⟩
    · intro m hq
      simp at hq
  | @write i n sec hpc =>
    rcases hpc with hpc | ⟨hpc, hd, hc⟩
    · obtain ⟨hd, hcopy⟩ := h.copy i n sec hpc
      exact h.step_write hdis (by rw [hpc]; rfl) hd (fun _ => hcopy) hun
    · exact h.step_write hdis (by rw [hpc]; rfl) hd (fun hne => absurd hc hne) hun
  | @finish i n hpc hd =>
    have hle := h.le i
    rw [hpc] at hle
    apply h.step_idle
    · simp [hpc, RawPc.done]
    · intro m sec hq
      simp at hq
    · intro m hq
      obtain rfl := RawPc.ended.inj hq
      exact .inl (le_antisymm hle hd)

theorem reachable_nothingLost (hdis : R.Disjoint)
    (h : (R.system.guarded R.Unshared).Reachable s) : NothingLost R s := by
  have hinv : RawInvariant R s := by
    refine h.invariant ?_ ?_
    · rintro s ⟨hd, hpc⟩
      refine ⟨⟨?_, ?_, ?_⟩, ?_, ?_⟩
      · intro i x hx
        simp [Covers, hpc, RawPc.done] at hx
        omega
      · intro x _
        rw [hd]
      · intro i n hn
        simp [hpc] at hn
      · intro i
        simp [hpc, RawPc.done]
      · intro i n sec hn
        simp [hpc] at hn
    · intro s a t hs hst
      exact hs.step hdis hst.2 hst.1
  exact hinv.toNothingLost

section OneSector

lemma reachable_next (a : RawAction ι) (h : R.system.Reachable s) (hs : R.Step s a t) :
    R.system.Reachable t := .step a h hs

def neighbours : RawSystem Bool where
  sectors := 1
  call i := if i then ⟨0, [1]⟩ else ⟨1, [2]⟩
  before _ := 0

lemma neighbours_disjoint : neighbours.Disjoint := by
  intro i j hij x
  cases i <;> cases j
  · exact absurd rfl hij
  · simp [neighbours, data, RawCall.accepted]
    omega
  · simp [neighbours, data, RawCall.accepted]
    omega
  · exact absurd rfl hij

def neighboursStart : RawState Bool := ⟨fun _ => 0, fun _ => .idle⟩

theorem reachable_nothingLost_neighbours : ∃ s, s.disk 0 = 1 ∧ s.disk 1 = 2 ∧ s.pc true = .ended 1 ∧
    NothingLost neighbours s := by
  have h₀ : (neighbours.system.guarded neighbours.Unshared).Reachable neighboursStart := .init ⟨rfl, fun _ => rfl⟩
  have h₁ : (neighbours.system.guarded neighbours.Unshared).Reachable _ := .step (.start false true)
    (.step (.start true true) h₀ ⟨trivial, .start rfl⟩) ⟨trivial, .start rfl⟩
  have h₂ : (neighbours.system.guarded neighbours.Unshared).Reachable _ := .step (.read true) h₁
    ⟨trivial, .read (show _ = RawPc.writing 0 from rfl) (by decide) (by decide)⟩
  have h₃ : (neighbours.system.guarded neighbours.Unshared).Reachable _ := .step (.write true) h₂
    ⟨by
      intro j m sec hj hl
      cases j with
      | true => exact absurd rfl hj
      | false => exact RawPc.noConfusion (show RawPc.writing 0 = .loaded m sec from hl),
    .write (.inl (show _ = RawPc.loaded 0 _ from rfl))⟩
  have h₄ : (neighbours.system.guarded neighbours.Unshared).Reachable _ := .step (.read false) h₃
    ⟨trivial, .read (show _ = RawPc.writing 0 from rfl) (by decide) (by decide)⟩
  have h₅ : (neighbours.system.guarded neighbours.Unshared).Reachable _ := .step (.finish true) h₄
    ⟨trivial, .finish (show _ = RawPc.writing 1 from rfl) (by decide)⟩
  have h₆ : (neighbours.system.guarded neighbours.Unshared).Reachable _ := .step (.write false) h₅
    ⟨by
      intro j m sec hj hl
      cases j with
      | true => exact RawPc.noConfusion (show RawPc.ended 1 = .loaded m sec from hl)
      | false => exact absurd rfl hj,
    .write (.inl (show _ = RawPc.loaded 0 _ from rfl))⟩
  exact ⟨_, by decide, by decide, rfl, reachable_nothingLost neighbours_disjoint h₆⟩

lemma bothLoaded : ∃ s, neighbours.system.Reachable s ∧ s.disk 0 = 0 ∧
    s.pc true = .writing 1 := by
  have h₀ : neighbours.system.Reachable neighboursStart := .init ⟨rfl, fun _ => rfl⟩
  have h₁ := reachable_next (.start true true) h₀ (.start rfl)
  have h₂ := reachable_next (.start false true) h₁ (.start rfl)
  have h₃ := reachable_next (.read true) h₂
    (.read (show _ = RawPc.writing 0 from rfl) (by decide) (by decide))
  have h₄ := reachable_next (.read false) h₃
    (.read (show _ = RawPc.writing 0 from rfl) (by decide) (by decide))
  have h₅ := reachable_next (.write true) h₄
    (.write (.inl (show _ = RawPc.loaded 0 _ from rfl)))
  have h₆ := reachable_next (.write false) h₅
    (.write (.inl (show _ = RawPc.loaded 0 _ from rfl)))
  exact ⟨_, h₆, by decide, rfl⟩

theorem not_nothingLost_neighbours : ¬ ∀ R : RawSystem Bool, R.Disjoint →
    ∀ s, R.system.Reachable s → NothingLost R s := by
  intro h
  obtain ⟨s, hs, hd, hpc⟩ := bothLoaded
  have hw := (h neighbours neighbours_disjoint s hs).written true 0
    ⟨Nat.zero_le _, by rw [hpc]; decide⟩
  rw [hd] at hw
  exact absurd hw (by decide)

end OneSector

end RawSystem

end MyOS.Fs
