import MyOS.Library.Bytes
import MyOS.Library.System

/-! `file_write` by any number of processes on files that are open with `O_APPEND` on one inode. -/

namespace MyOS.Fs

open Library Function

structure FileData where
  data : ℕ → UInt8
  size : ℕ

namespace FileData

def contents (c : FileData) : List UInt8 := Bytes.load c.data 0 c.size

/-- The loop of `tmpfs_write` and `ext2_write` over the pages or blocks of `unit` bytes. A round
copies at least one byte, so that `d.length` rounds are enough. -/
def copyLoop (unit off : ℕ) (d : List UInt8) : ℕ → ℕ → (ℕ → UInt8) → ℕ → UInt8
  | 0, _, m => m
  | k + 1, done, m =>
    if done < d.length then
      let chunk := min (d.length - done) (unit - (off + done) % unit)
      copyLoop unit off d k (done + chunk)
        (Bytes.store m (off + done) ((d.drop done).take chunk))
    else m

/-- The locked part of a write without errors. `ext2_write` leaves the size alone if nothing was
written. -/
def write (ext2 : Bool) (unit : ℕ) (c : FileData) (off : ℕ) (d : List UInt8) : FileData where
  data := copyLoop unit off d d.length 0 c.data
  size := if (ext2 = true → d ≠ []) ∧ c.size < off + d.length then off + d.length else c.size

end FileData

/-- Where a `file_write` of `d` to the file `f` is: before `pos_lock`, with it, with the offset set
to the size of the file, with the inode's lock, after the write, and with `pos_lock` only again. -/
inductive AppendPc
  | idle
  | entering (f : ℕ) (d : List UInt8)
  | positioned (f : ℕ) (d : List UInt8)
  | sized (f : ℕ) (d : List UInt8)
  | locked (f : ℕ) (d : List UInt8)
  | written (f : ℕ) (d : List UInt8)
  | leaving (f : ℕ) (d : List UInt8)

inductive AppendAction
  | call (p f : ℕ) (d : List UInt8)
  | lockPos (p : ℕ)
  | readSize (p : ℕ)
  | lockInode (p : ℕ)
  | write (p : ℕ)
  | unlockInode (p : ℕ)
  | unlockPos (p : ℕ)

/-- `ext2` and `unit` are the kind of file system and its page or block size. `initial`, `calls`
and `log` are not in the source: the contents at the start, the calls of each process, and the
writes with their processes in the order in which they happened. -/
structure AppendState where
  ext2 : Bool
  unit : ℕ
  file : FileData
  posLock : ℕ → Option ℕ
  inodeLock : Option ℕ
  offset : ℕ → ℕ
  pc : ℕ → AppendPc
  initial : List UInt8
  calls : ℕ → List (List UInt8)
  log : List (ℕ × List UInt8)

namespace AppendState

def setPc (s : AppendState) (p : ℕ) (pc : AppendPc) : AppendState :=
  { s with pc := update s.pc p pc }

def setPosLock (s : AppendState) (f : ℕ) (o : Option ℕ) : AppendState :=
  { s with posLock := update s.posLock f o }

def setOffset (s : AppendState) (f off : ℕ) : AppendState :=
  { s with offset := update s.offset f off }

inductive Step : AppendState → AppendAction → AppendState → Prop
  | call {s p f d} (h : s.pc p = .idle) :
      Step s (.call p f d)
        { s.setPc p (.entering f d) with calls := update s.calls p (s.calls p ++ [d]) }
  | lockPos {s p f d} (h : s.pc p = .entering f d) (hl : s.posLock f = none) :
      Step s (.lockPos p) ((s.setPc p (.positioned f d)).setPosLock f (some p))
  | readSize {s p f d} (h : s.pc p = .positioned f d) :
      Step s (.readSize p) ((s.setPc p (.sized f d)).setOffset f s.file.size)
  | lockInode {s p f d} (h : s.pc p = .sized f d) (hl : s.inodeLock = none) :
      Step s (.lockInode p) { s.setPc p (.locked f d) with inodeLock := some p }
  | write {s p f d} (h : s.pc p = .locked f d) :
      Step s (.write p)
        { s.setPc p (.written f d) with
          file := s.file.write s.ext2 s.unit (s.offset f) d, log := s.log ++ [(p, d)] }
  | unlockInode {s p f d} (h : s.pc p = .written f d) :
      Step s (.unlockInode p) { s.setPc p (.leaving f d) with inodeLock := none }
  | unlockPos {s p f d} (h : s.pc p = .leaving f d) :
      Step s (.unlockPos p)
        (((s.setPc p .idle).setOffset f (s.offset f + d.length)).setPosLock f none)

def system : System AppendState AppendAction where
  init s := 0 < s.unit ∧ (∀ f, s.posLock f = none) ∧ s.inodeLock = none ∧
    (∀ p, s.pc p = .idle ∧ s.calls p = []) ∧ s.initial = s.file.contents ∧ s.log = []
  step := Step

end AppendState

end MyOS.Fs

/-! No append is lost, unless another append comes between its look at the size and its write. -/

namespace MyOS.Fs

open Library Function

namespace FileData

variable {c : FileData} {off unit : ℕ} {d : List UInt8}

lemma copyLoop_eq (hu : 0 < unit) {k : ℕ} (done off : ℕ) (d : List UInt8) (m : ℕ → UInt8) (hk : d.length ≤ k + done)
    (hd : done ≤ d.length) :
    copyLoop unit off d k done (Bytes.store m off (d.take done)) = Bytes.store m off d := by
  induction k generalizing done with
  | zero => rw [copyLoop, List.take_of_length_le (by omega)]
  | succ k ih =>
    unfold copyLoop
    by_cases hlt : done < d.length
    · rw [if_pos hlt]
      have hmod := Nat.mod_lt (off + done) hu
      set chunk := min (d.length - done) (unit - (off + done) % unit) with hc
      have hlen : (d.take done).length = done := by simp [hd]
      have hstore := Bytes.store_append (m := m) (a := off) (d.take done) ((d.drop done).take chunk)
      rw [hlen, ← List.take_add] at hstore
      simp only
      rw [hstore]
      exact ih _ (by omega) (by omega)
    · rw [if_neg hlt, List.take_of_length_le (by omega)]

lemma write_data (ext2 : Bool) (hu : 0 < unit) :
    (c.write ext2 unit off d).data = Bytes.store c.data off d := by
  have h := copyLoop_eq hu 0 off d c.data (k := d.length) (by omega) (by omega)
  have h0 : Bytes.store c.data off (d.take 0) = c.data := by
    funext x
    apply Bytes.store_of_not_mem
    simp
  rw [h0] at h
  exact h

lemma load_append {m : ℕ → UInt8} {n k : ℕ} :
    Bytes.load m 0 (n + k) = Bytes.load m 0 n ++ Bytes.load m n k := by
  unfold Bytes.load
  rw [List.range_add, List.map_append, List.map_map]
  congr 1
  apply List.map_congr_left
  intro i _
  simp

lemma contents_write_end (ext2 : Bool) (hu : 0 < unit) (ho : off = c.size) :
    (c.write ext2 unit off d).contents = c.contents ++ d := by
  subst ho
  have hsize : (c.write ext2 unit c.size d).size = c.size + d.length := by
    unfold write
    cases d with
    | nil => simp
    | cons x d => simp
  unfold contents
  rw [hsize, write_data ext2 hu, load_append, Bytes.load_store_self rfl]
  congr 1
  apply Bytes.load_congr
  intro x h₁ h₂
  exact Bytes.store_of_not_mem (by omega)

lemma contents_write_nil (ext2 : Bool) (hu : 0 < unit) (ho : off ≤ c.size) :
    (c.write ext2 unit off []).contents = c.contents := by
  have hsize : (c.write ext2 unit off []).size = c.size := by
    unfold write
    simp
    omega
  have hdata : (c.write ext2 unit off []).data = c.data := by
    rw [write_data ext2 hu]
    funext x
    apply Bytes.store_of_not_mem
    simp
  unfold contents
  rw [hsize, hdata]

lemma size_le_write (ext2 : Bool) : c.size ≤ (c.write ext2 unit off d).size := by
  unfold write
  split_ifs with h
  · exact le_of_lt h.2
  · exact le_rfl

end FileData

namespace AppendPc

def pending : AppendPc → List (List UInt8)
  | .entering _ d | .positioned _ d | .sized _ d | .locked _ d => [d]
  | _ => []

def sizedFile : AppendPc → Option ℕ
  | .sized f _ | .locked f _ => some f
  | _ => none

def posFile : AppendPc → Option ℕ
  | .positioned f _ | .sized f _ | .locked f _ | .written f _ | .leaving f _ => some f
  | _ => none

end AppendPc

namespace AppendState

structure Appended (s : AppendState) : Prop where
  contents : s.file.contents = s.initial ++ (s.log.map Prod.snd).flatten
  once : ∀ p, s.calls p =
    ((s.log.filter fun w => w.1 = p).map Prod.snd) ++ (s.pc p).pending

/-- The step is no write of data at an offset that is not the end of the file any more. -/
def AtEnd (s : AppendState) : AppendAction → Prop
  | .write p => ∀ f d, s.pc p = .locked f d → d = [] ∨ s.offset f = s.file.size
  | _ => True

structure AppendInvariant (s : AppendState) : Prop extends Appended s where
  unit : 0 < s.unit
  posLock : ∀ p f, (s.pc p).posFile = some f → s.posLock f = some p
  offset : ∀ p f, (s.pc p).sizedFile = some f → s.offset f ≤ s.file.size

variable {s t : AppendState} {a : AppendAction} {p : ℕ}

lemma posFile_of_sizedFile {pc : AppendPc} {f : ℕ} (h : pc.sizedFile = some f) :
    pc.posFile = some f := by
  cases pc <;> simp_all [AppendPc.sizedFile, AppendPc.posFile]

lemma filter_log_append {q : ℕ} {d : List UInt8} (l : List (ℕ × List UInt8)) :
    (((l ++ [(p, d)]).filter fun w => w.1 = q).map Prod.snd) =
      ((l.filter fun w => w.1 = q).map Prod.snd) ++ if p = q then [d] else [] := by
  by_cases hp : p = q <;> simp [hp]

lemma AppendInvariant.posLock_unique (h : AppendInvariant s) {f : ℕ} (q : ℕ)
    (hp : (s.pc p).posFile = some f) (hq : (s.pc q).posFile = some f) : p = q :=
  Option.some.inj ((h.posLock p f hp).symm.trans (h.posLock q f hq))

lemma AppendInvariant.step_write (h : AppendInvariant s) {f : ℕ} {d : List UInt8}
    (hpc : s.pc p = .locked f d) (hend : d = [] ∨ s.offset f = s.file.size) :
    AppendInvariant { s.setPc p (.written f d) with
      file := s.file.write s.ext2 s.unit (s.offset f) d, log := s.log ++ [(p, d)] } := by
  have hoff : s.offset f ≤ s.file.size := h.offset p f (by simp [hpc, AppendPc.sizedFile])
  refine ⟨⟨?_, ?_⟩, h.unit, ?_, ?_⟩
  · have hcont : (s.file.write s.ext2 s.unit (s.offset f) d).contents = s.file.contents ++ d := by
      rcases hend with rfl | hend
      · rw [FileData.contents_write_nil _ h.unit hoff, List.append_nil]
      · exact FileData.contents_write_end _ h.unit hend
    simp [setPc, hcont, h.contents]
  · intro q
    simp only [setPc]
    rw [filter_log_append, h.once q]
    by_cases hq : q = p
    · subst hq
      simp [hpc, AppendPc.pending]
    · simp [hq, Ne.symm hq]
  · intro q g hq
    simp only [setPc] at hq ⊢
    by_cases hqp : q = p
    · subst hqp
      rw [update_self] at hq
      exact h.posLock q g (by rw [hpc]; exact hq)
    · rw [update_of_ne hqp] at hq
      exact h.posLock q g hq
  · intro q g hq
    simp only [setPc] at hq ⊢
    refine le_trans ?_ (FileData.size_le_write s.ext2)
    by_cases hqp : q = p
    · subst hqp
      simp [AppendPc.sizedFile] at hq
    · rw [update_of_ne hqp] at hq
      exact h.offset q g hq

lemma AppendInvariant.step (h : AppendInvariant s) (hs : Step s a t) (hend : s.AtEnd a) :
    AppendInvariant t := by
  have huniq := fun p q f hp hq => h.posLock_unique (p := p) (f := f) q hp hq
  have hsized := fun (q f : ℕ) (hq : (s.pc q).sizedFile = some f) => posFile_of_sizedFile hq
  cases hs with
  | @write p f d hpc => exact h.step_write hpc (hend f d hpc)
  | _ =>
    obtain ⟨⟨h₁, h₂⟩, h₃, h₄, h₅⟩ := h
    simp only [setPc, setPosLock, setOffset] at *
    refine ⟨⟨?_, ?_⟩, ?_, ?_, ?_⟩
    all_goals grind [AppendPc.pending, AppendPc.posFile, AppendPc.sizedFile, update]

theorem reachable_appended (h : (system.guarded AtEnd).Reachable s) : Appended s := by
  have hinv : AppendInvariant s := by
    refine h.invariant ?_ ?_
    · rintro s ⟨hu, hpos, -, hpc, hinit, hlog⟩
      refine ⟨⟨?_, ?_⟩, hu, ?_, ?_⟩
      · rw [hinit, hlog]
        simp
      · intro p
        simp [(hpc p).1, (hpc p).2, hlog, AppendPc.pending]
      · intro p f hp
        simp [(hpc p).1, AppendPc.posFile] at hp
      · intro p f hp
        simp [(hpc p).1, AppendPc.sizedFile] at hp
    · intro s a t hs hst
      exact hs.step hst.2 hst.1
  exact hinv.toAppended

section TwoFiles

def emptyFile : AppendState where
  ext2 := false
  unit := 4096
  file := ⟨fun _ => 0, 0⟩
  posLock _ := none
  inodeLock := none
  offset _ := 0
  pc _ := .idle
  initial := []
  calls _ := []
  log := []

lemma emptyFile_init : system.init emptyFile :=
  ⟨by decide, fun _ => rfl, rfl, fun _ => ⟨rfl, rfl⟩, rfl, rfl⟩

theorem reachable_appended_both : ∃ s, s.file.contents = [1, 2] ∧ s.log = [(1, [1]), (2, [2])] ∧ Appended s := by
  have h₁ : (system.guarded AtEnd).Reachable _ := .step (.lockPos 1)
    (.step (.call 1 3 [1]) (.init emptyFile_init) ⟨trivial, .call rfl⟩) ⟨trivial, .lockPos rfl rfl⟩
  have h₂ : (system.guarded AtEnd).Reachable _ := .step (.lockPos 2)
    (.step (.call 2 4 [2]) h₁ ⟨trivial, .call rfl⟩) ⟨trivial, .lockPos rfl rfl⟩
  have h₃ : (system.guarded AtEnd).Reachable _ := .step (.lockInode 1)
    (.step (.readSize 1) h₂ ⟨trivial, .readSize rfl⟩) ⟨trivial, .lockInode rfl rfl⟩
  have h₄ : (system.guarded AtEnd).Reachable _ := .step (.write 1) h₃
    ⟨fun _ _ h => by cases h; exact .inr rfl, .write rfl⟩
  have h₅ : (system.guarded AtEnd).Reachable _ := .step (.readSize 2)
    (.step (.unlockInode 1) h₄ ⟨trivial, .unlockInode rfl⟩) ⟨trivial, .readSize rfl⟩
  have h₆ : (system.guarded AtEnd).Reachable _ := .step (.write 2)
    (.step (.lockInode 2) h₅ ⟨trivial, .lockInode rfl rfl⟩) ⟨fun _ _ h => by cases h; exact .inr rfl, .write rfl⟩
  exact ⟨_, by decide, by decide, reachable_appended h₆⟩

lemma bothAtZero : ∃ s, system.Reachable s ∧ s.file.contents = [2] ∧ s.initial = [] ∧
    s.log = [(1, [1]), (2, [2])] := by
  refine ⟨_, .step (.write 2) (.step (.lockInode 2) (.step (.unlockInode 1) (.step (.write 1)
    (.step (.lockInode 1) (.step (.readSize 2) (.step (.lockPos 2) (.step (.call 2 4 [2])
    (.step (.readSize 1) (.step (.lockPos 1) (.step (.call 1 3 [1]) (.init emptyFile_init)
      (.call rfl)) (.lockPos rfl rfl)) (.readSize rfl)) (.call rfl)) (.lockPos rfl rfl))
      (.readSize rfl)) (.lockInode rfl rfl)) (.write rfl)) (.unlockInode rfl))
      (.lockInode rfl rfl)) (.write rfl), ?_, ?_, ?_⟩
  · decide
  · decide
  · decide

theorem not_appended_races : ¬ ∀ s, system.Reachable s →
    ∃ l : List (List UInt8), l.Perm (s.log.map Prod.snd) ∧
      s.file.contents = s.initial ++ l.flatten := by
  intro h
  obtain ⟨s, hs, hc, hi, hl⟩ := bothAtZero
  obtain ⟨l, hperm, heq⟩ := h s hs
  have hlen := congrArg List.length heq
  rw [hc, hi, List.nil_append, hperm.flatten.length_eq, hl] at hlen
  cases hlen

end TwoFiles

end AppendState

end MyOS.Fs
