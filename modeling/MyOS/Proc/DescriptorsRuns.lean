import MyOS.Fs.FileCounts
import MyOS.Proc.DescriptorsOwned

/-! Every reference to a file is a slot or belongs to a call that is in progress. -/

namespace MyOS.Proc

open Library Fs Function

def FdSlot.count : FdSlot → ℕ → ℕ
  | file f, g => if g = f then 1 else 0
  | _, _ => 0

namespace FdTask

variable {ι : Type}

def refs : FdTask ι → ℕ → ℕ
  | install f, g => if g = f then 1 else 0
  | installPipe r w, g => (if g = r then 1 else 0) + if g = w then 1 else 0
  | installWriter _ _ w, g => if g = w then 1 else 0
  | close f k, g => k.refs g + if g = f then 1 else 0
  | release _ k, g => k.refs g
  | _, _ => 0

def ending : FdTask ι → ℕ → ℕ
  | close _ k, g => k.ending g
  | release f k, g => k.ending g + if g = f then 1 else 0
  | _, _ => 0

end FdTask

def FdProc.slots {ι : Type} (x : FdProc ι) (f : ℕ) : ℕ := ∑ fd, (x.files fd).count f

namespace FdState

variable {ι : Type}

section Counts

variable [Fintype ι] [DecidableEq ι]

def slots (s : FdState ι) (f : ℕ) : ℕ := ∑ a, (s.proc a).slots f

def refs (s : FdState ι) (f : ℕ) : ℕ := ∑ a, (s.proc a).task.refs f

def ending (s : FdState ι) (f : ℕ) : ℕ := ∑ a, (s.proc a).task.ending f

/-- The slots that point to a file, without those that are being closed, and the references that
calls in progress hold. -/
def held (s : FdState ι) (f : ℕ) : ℕ := s.slots f + s.refs f

variable {s t : FdState ι} {a b c : ι} {k : FdTask ι} {f g : ℕ}

omit [Fintype ι] [DecidableEq ι] in
lemma slots_setSlot (x : FdProc ι) (fd : Fin maxFds) (v : FdSlot) (g : ℕ) :
    FdProc.slots { x with files := update x.files fd v } g + (x.files fd).count g =
      x.slots g + v.count g :=
  Sums.sum_update x.files fd v fun y => y.count g

omit [DecidableEq ι] in
@[simp] lemma held_withFiles {u : Files} : (s.withFiles u).held g = s.held g := rfl
omit [DecidableEq ι] in
@[simp] lemma ending_withFiles {u : Files} : (s.withFiles u).ending g = s.ending g := rfl

lemma held_setTask (s : FdState ι) (a : ι) (k : FdTask ι) (g : ℕ) :
    (s.setTask a k).held g + (s.proc a).task.refs g = s.held g + k.refs g := by
  have hslots := Sums.sum_update s.proc a { s.proc a with task := k } fun x => x.slots g
  have hrefs := Sums.sum_update s.proc a { s.proc a with task := k } fun x => x.task.refs g
  have hsame : FdProc.slots { s.proc a with task := k } g = (s.proc a).slots g := rfl
  simp only [held, slots, refs, setTask] at *
  omega

lemma ending_setTask (s : FdState ι) (a : ι) (k : FdTask ι) (g : ℕ) :
    (s.setTask a k).ending g + (s.proc a).task.ending g = s.ending g + k.ending g :=
  Sums.sum_update s.proc a { s.proc a with task := k } fun x => x.task.ending g

lemma held_setSlot (s : FdState ι) (c : ι) (fd : Fin maxFds) (v : FdSlot) (g : ℕ) :
    (s.setSlot c fd v).held g + ((s.proc c).files fd).count g = s.held g + v.count g := by
  have hslots := Sums.sum_update s.proc c
    { s.proc c with files := update (s.proc c).files fd v } fun x => x.slots g
  have hrefs := Sums.sum_update s.proc c
    { s.proc c with files := update (s.proc c).files fd v } fun x => x.task.refs g
  have hslot := slots_setSlot (s.proc c) fd v g
  simp only [held, slots, refs, setSlot] at *
  omega

lemma ending_setSlot (s : FdState ι) (c : ι) (fd : Fin maxFds) (v : FdSlot) (g : ℕ) :
    (s.setSlot c fd v).ending g = s.ending g := by
  have hsum := Sums.sum_update s.proc c
    { s.proc c with files := update (s.proc c).files fd v } fun x => x.task.ending g
  simp only [ending, setSlot] at *
  omega

lemma held_setState (s : FdState ι) (c : ι) (st : ProcState) (g : ℕ) :
    (s.setState c st).held g = s.held g := by
  have hslots := Sums.sum_update s.proc c { s.proc c with state := st } fun x => x.slots g
  have hrefs := Sums.sum_update s.proc c { s.proc c with state := st } fun x => x.task.refs g
  have hsame : FdProc.slots { s.proc c with state := st } g = (s.proc c).slots g := rfl
  simp only [held, slots, refs, setState] at *
  omega

lemma ending_setState (s : FdState ι) (c : ι) (st : ProcState) (g : ℕ) :
    (s.setState c st).ending g = s.ending g := by
  have hsum := Sums.sum_update s.proc c { s.proc c with state := st } fun x => x.task.ending g
  simp only [ending, setState] at *
  omega

omit [Fintype ι] [DecidableEq ι] in
lemma slots_eq_zero {x : FdProc ι} (h : ∀ fd, x.files fd = .null) : x.slots g = 0 := by
  apply Finset.sum_eq_zero
  intro fd _
  rw [h]
  rfl

lemma held_procAlloc (hf : ∀ fd, (s.proc c).files fd = .null) (hk : (s.proc c).task = .run)
    (g : ℕ) : (s.procAlloc c).held g = s.held g ∧ (s.procAlloc c).ending g = s.ending g := by
  have hslots := Sums.sum_update s.proc c ⟨.embryo, false, fun _ => .null, .run⟩
    fun x => x.slots g
  have hrefs := Sums.sum_update s.proc c ⟨.embryo, false, fun _ => .null, .run⟩
    fun x => x.task.refs g
  have hending := Sums.sum_update s.proc c ⟨.embryo, false, fun _ => .null, .run⟩
    fun x => x.task.ending g
  have hnew : (⟨.embryo, false, fun _ => .null, .run⟩ : FdProc ι).slots g = 0 :=
    slots_eq_zero fun _ => rfl
  have hold : (s.proc c).slots g = 0 := slots_eq_zero hf
  simp only [hk, FdTask.refs, FdTask.ending] at hrefs hending
  simp only [held, slots, refs, ending, procAlloc] at *
  omega

end Counts

section CountsStep

variable [Fintype ι] [DecidableEq ι] {s t : FdState ι} {a c : ι} {k k' : FdTask ι} {f g : ℕ}

def Accurate (s : FdState ι) : Prop := s.files.Counted s.held s.ending

lemma held_goto {u : FdState ι} (hu : (u.proc a).task = k) (k' : FdTask ι) (g : ℕ) :
    (u.setTask a k').held g + k.refs g = u.held g + k'.refs g ∧
      (u.setTask a k').ending g + k.ending g = u.ending g + k'.ending g := by
  have hheld := held_setTask u a k' g
  have hending := ending_setTask u a k' g
  rw [hu] at hheld hending
  exact ⟨hheld, hending⟩

lemma held_put {u : FdState ι} (hu : (u.proc a).task = k) (c : ι) (fd : Fin maxFds) (v : FdSlot)
    (k' : FdTask ι) (g : ℕ) :
    ((u.setSlot c fd v).setTask a k').held g + k.refs g + ((u.proc c).files fd).count g =
      u.held g + k'.refs g + v.count g ∧
    ((u.setSlot c fd v).setTask a k').ending g + k.ending g = u.ending g + k'.ending g := by
  have hput := held_setSlot u c fd v g
  have hput' := ending_setSlot u c fd v g
  have htask : ((u.setSlot c fd v).proc a).task = k := by
    rw [setSlot_proc, hu]
  obtain ⟨hheld, hending⟩ := held_goto htask k' g
  omega

omit [DecidableEq ι] in
lemma Accurate.move (h : s.Accurate) (ht : t.files = s.files) (hheld : ∀ g, t.held g = s.held g)
    (hending : ∀ g, t.ending g = s.ending g) : t.Accurate := by
  have hc : s.files.Counted t.held t.ending := Files.Counted.congr h hheld hending
  rwa [← ht] at hc

omit [DecidableEq ι] in
lemma held_pos {fd : Fin maxFds} (h : (s.proc a).files fd = .file f) : 0 < s.held f := by
  have hslot := Sums.le_sum (s.proc a).files fd fun v => v.count f
  have hproc := Sums.le_sum s.proc a fun x => x.slots f
  have hone : ((s.proc a).files fd).count f = 1 := by
    rw [h]
    exact if_pos rfl
  have hle : (s.proc a).slots f ≤ s.slots f := hproc
  have hle' : ((s.proc a).files fd).count f ≤ (s.proc a).slots f := hslot
  unfold held
  omega

lemma freeFd_null {files : Fin maxFds → FdSlot} {fd : Fin maxFds} (h : freeFd files = some fd) :
    files fd = .null := by
  simpa using List.find?_some h

omit [Fintype ι] in
lemma Owned.ptr_file (h : s.Owned) (hat : s.At a k) (hk : k.clears = none) {fd : Fin maxFds}
    (hf : ((s.proc a).files fd).ptr = some f) : (s.proc a).files fd = .file f := by
  cases hv : (s.proc a).files fd with
  | null =>
    rw [hv] at hf
    cases hf
  | file g =>
    rw [hv] at hf
    rw [Option.some.inj hf]
  | closing g => exact absurd hv (h.not_closing_self hat.active (by rw [hat.2, hk]) fd g)

lemma Accurate.moveTask (hc : s.Accurate) (hk : (s.proc a).task = k)
    (hrefs : ∀ g, k'.refs g = k.refs g) (hending : ∀ g, k'.ending g = k.ending g) :
    (s.setTask a k').Accurate := by
  refine hc.move setTask_files ?_ ?_
  · intro g
    have := (held_goto hk k' g).1
    rw [hrefs] at this
    omega
  · intro g
    have := (held_goto hk k' g).2
    rw [hending] at this
    omega

lemma Accurate.moveSlot (hc : s.Accurate) (hk : (s.proc a).task = k) {fd : Fin maxFds}
    {v : FdSlot} (hrefs : ∀ g, k'.refs g + v.count g = k.refs g + ((s.proc c).files fd).count g)
    (hending : ∀ g, k'.ending g = k.ending g) :
    ((s.setSlot c fd v).setTask a k').Accurate := by
  refine hc.move (setTask_files.trans setSlot_files) ?_ ?_
  · intro g
    have := (held_put hk c fd v k' g).1
    have := hrefs g
    omega
  · intro g
    have := (held_put hk c fd v k' g).2
    rw [hending] at this
    omega

lemma Accurate.setState (hc : s.Accurate) (c : ι) (st : ProcState) :
    (s.setState c st).Accurate :=
  hc.move rfl (held_setState s c st) (ending_setState s c st)

lemma Accurate.procAlloc (hc : s.Accurate) (h : s.Owned) (hn : (s.proc c).state = .unused) :
    (s.procAlloc c).Accurate := by
  have halloc := held_procAlloc (h.empty c (Or.inl hn)) (h.idle c (by rw [hn]; rfl))
  exact hc.move rfl (fun g => (halloc g).1) fun g => (halloc g).2

omit [DecidableEq ι] in
lemma Accurate.dup (hc : s.Accurate) {fd : Fin maxFds} (hf : (s.proc a).files fd = .file f)
    (ht : t.files = s.files.dup f)
    (hheld : ∀ g, t.held g = s.held g + if g = f then 1 else 0)
    (hending : ∀ g, t.ending g = s.ending g) : t.Accurate := by
  have hdup := Files.Counted.dup hc (held_pos hf) hheld hending
  rwa [← ht] at hdup

omit [DecidableEq ι] in
lemma Accurate.alloc (hc : s.Accurate) (hf : s.files.file f = none)
    (ht : t.files = s.files.alloc f)
    (hheld : ∀ g, t.held g = s.held g + if g = f then 1 else 0)
    (hending : ∀ g, t.ending g = s.ending g) : t.Accurate := by
  have halloc := Files.Counted.alloc hc hf hheld hending
  rwa [← ht] at halloc

lemma held_newSlot {u : Files} {fd : Fin maxFds} {v : FdSlot} (hk : (s.proc a).task = k)
    (hrefs : ∀ g, k'.refs g + v.count g =
      k.refs g + ((s.proc c).files fd).count g + if g = f then 1 else 0)
    (hending : ∀ g, k'.ending g = k.ending g) (g : ℕ) :
    (((s.withFiles u).setSlot c fd v).setTask a k').held g = s.held g + (if g = f then 1 else 0) ∧
      (((s.withFiles u).setSlot c fd v).setTask a k').ending g = s.ending g := by
  have hput := held_put (u := s.withFiles u) hk c fd v k' g
  have hg := hrefs g
  have hg' := hending g
  simp only [held_withFiles, ending_withFiles, withFiles_proc] at hput
  omega

lemma Accurate.dupSlot (hc : s.Accurate) (hk : (s.proc a).task = k) {b : ι}
    {e fd : Fin maxFds} {v : FdSlot} (hf : (s.proc b).files e = .file f)
    (hrefs : ∀ g, k'.refs g + v.count g =
      k.refs g + ((s.proc c).files fd).count g + if g = f then 1 else 0)
    (hending : ∀ g, k'.ending g = k.ending g) :
    (((s.withFiles (s.files.dup f)).setSlot c fd v).setTask a k').Accurate :=
  hc.dup hf rfl (fun g => (held_newSlot hk hrefs hending g).1)
    fun g => (held_newSlot hk hrefs hending g).2

lemma Accurate.allocSlot (hc : s.Accurate) (hk : (s.proc a).task = k) {fd : Fin maxFds}
    {v : FdSlot} (hf : s.files.file f = none)
    (hrefs : ∀ g, k'.refs g + v.count g =
      k.refs g + ((s.proc c).files fd).count g + if g = f then 1 else 0)
    (hending : ∀ g, k'.ending g = k.ending g) :
    (((s.withFiles (s.files.alloc f)).setSlot c fd v).setTask a k').Accurate :=
  hc.alloc hf rfl (fun g => (held_newSlot hk hrefs hending g).1)
    fun g => (held_newSlot hk hrefs hending g).2

lemma Accurate.drop {x : File} (hc : s.Accurate) (hk : (s.proc a).task = .close f k)
    (hf : s.files.file f = some x) : ((s.withFiles (s.files.drop f)).setTask a
      (if 0 < x.refcount - 1 then k else .release f k)).Accurate := by
  have hcount := hc.refcount f x hf
  by_cases hx : 0 < x.refcount - 1
  · rw [if_pos hx]
    have hgo := held_goto (u := s.withFiles (s.files.drop f)) hk k
    have hheld : ∀ g, s.held g =
        ((s.withFiles (s.files.drop f)).setTask a k).held g + if g = f then 1 else 0 := by
      intro g
      have := (hgo g).1
      simp only [FdTask.refs, held_withFiles] at this
      omega
    apply Files.Counted.drop hc hheld
    intro g
    have hself := hheld f
    rw [if_pos rfl] at hself
    rw [if_neg (by rintro ⟨-, h0⟩; omega)]
    simpa [FdTask.ending] using (hgo g).2
  · rw [if_neg hx]
    have hgo := held_goto (u := s.withFiles (s.files.drop f)) hk (.release f k)
    have hheld : ∀ g, s.held g = ((s.withFiles (s.files.drop f)).setTask a
        (.release f k)).held g + if g = f then 1 else 0 := by
      intro g
      have := (hgo g).1
      simp only [FdTask.refs, held_withFiles] at this
      omega
    apply Files.Counted.drop hc hheld
    intro g
    have hself := hheld f
    rw [if_pos rfl] at hself
    have := (hgo g).2
    simp only [FdTask.ending, ending_withFiles] at this
    by_cases hg : g = f
    · rw [if_pos ⟨hg, by omega⟩]
      rw [if_pos hg] at this
      omega
    · rw [if_neg fun hc => hg hc.1]
      rw [if_neg hg] at this
      omega

lemma Accurate.allocTask (hc : s.Accurate) (hk : (s.proc a).task = k)
    (hf : s.files.file f = none) (hrefs : ∀ g, k'.refs g = k.refs g + if g = f then 1 else 0)
    (hending : ∀ g, k'.ending g = k.ending g) :
    ((s.withFiles (s.files.alloc f)).setTask a k').Accurate := by
  have hgo := held_goto (u := s.withFiles (s.files.alloc f)) hk k'
  refine hc.alloc hf rfl (fun g => ?_) fun g => ?_
  · have := (hgo g).1
    rw [hrefs, held_withFiles] at this
    omega
  · have := (hgo g).2
    rw [hending, ending_withFiles] at this
    omega

lemma Accurate.procAllocTask (hc : s.Accurate) (h : s.Owned) (hat : s.At a k)
    (hn : (s.proc c).state = .unused) (hrefs : ∀ g, k'.refs g = k.refs g)
    (hending : ∀ g, k'.ending g = k.ending g) : ((s.procAlloc c).setTask a k').Accurate := by
  have hca := hat.ne_of_state (by rw [hn]; decide)
  refine (hc.procAlloc h hn).moveTask ?_ hrefs hending
  simpa [procAlloc_proc, Ne.symm hca] using hat.2

lemma Accurate.setStateTask {st : ProcState} (hc : s.Accurate) (hk : (s.proc a).task = k)
    (hrefs : ∀ g, k'.refs g = k.refs g) (hending : ∀ g, k'.ending g = k.ending g) :
    ((s.setState c st).setTask a k').Accurate := by
  refine (hc.setState c st).moveTask ?_ hrefs hending
  simpa [setState_proc] using hk

lemma Accurate.sysPipe {r w p : ℕ} (hc : s.Accurate) (hat : s.At a .run)
    (hr : s.files.file r = none) (hw : s.files.file w = none) (hrw : r ≠ w)
    (hp : s.files.pipe p = none) :
    ((s.withFiles (s.files.pipeCreate r w p)).setTask a (.installPipe r w)).Accurate := by
  have hgo := held_goto (u := s.withFiles (s.files.pipeCreate r w p)) hat.2 (.installPipe r w)
  refine Files.Counted.pipeCreate hc hr hw hrw hp (fun g => ?_) fun g => ?_
  · simpa [FdTask.refs, add_assoc] using (hgo g).1
  · simpa [FdTask.ending] using (hgo g).2

lemma Accurate.release (hc : s.Accurate) (hat : s.At a (.release f k)) :
    ((s.withFiles (s.files.finish f)).setTask a k).Accurate := by
  have hgo := held_goto (u := s.withFiles (s.files.finish f)) hat.2 k
  have hheld : ((s.withFiles (s.files.finish f)).setTask a k).held = s.held := by
    funext g
    simpa [FdTask.refs] using (hgo g).1
  rw [Accurate, hheld]
  apply Files.Counted.finish hc
  intro g
  have := (hgo g).2
  simp only [FdTask.ending, ending_withFiles] at this
  omega

omit [Fintype ι] in
lemma Owned.refs_closeOld (h : s.Owned) (hat : s.At a .run) (new : Fin maxFds) (g : ℕ) :
    (FdTask.closeOld ((s.proc a).files new).ptr : FdTask ι).refs g =
        ((s.proc a).files new).count g ∧
      (FdTask.closeOld ((s.proc a).files new).ptr : FdTask ι).ending g = 0 := by
  cases hp : ((s.proc a).files new).ptr with
  | none =>
    rw [slot_eq_null hp]
    exact ⟨rfl, rfl⟩
  | some y =>
    rw [h.ptr_file hat rfl hp]
    exact ⟨zero_add _, rfl⟩

omit [Fintype ι] in
lemma Owned.closeAll_file {fd : ℕ} (h : s.Owned) (hat : s.At a (.closeAll c fd))
    (hn : fd < maxFds) (hf : ((s.proc c).files ⟨fd, hn⟩).ptr = some f) :
    (s.proc c).files ⟨fd, hn⟩ = .file f := by
  cases hv : (s.proc c).files ⟨fd, hn⟩ with
  | null =>
    rw [hv] at hf
    cases hf
  | file g =>
    rw [hv] at hf
    rw [Option.some.inj hf]
  | closing g =>
    exact absurd hv (h.not_closing_on (by rw [hat.2]; rfl) (by rw [hat.2]; rfl) ⟨fd, hn⟩ g)

omit [Fintype ι] in
lemma Owned.count_clear {fd : ℕ} (h : s.Owned) (hat : s.At a (.clear c fd)) (hn : fd < maxFds)
    (g : ℕ) : ((s.proc c).files ⟨fd, hn⟩).count g = 0 := by
  cases hv : (s.proc c).files ⟨fd, hn⟩ with
  | file f => exact absurd hv ((h.taskAt hat).2.2 ⟨fd, hn⟩ rfl f)
  | null | closing f => rfl

lemma Accurate.step (hc : s.Accurate) (h : s.Owned) (hs : Step s a t) : t.Accurate := by
  cases hs with
  | schedule _ _ => exact hc.setState a _
  | sysOpen hat hf => exact hc.allocTask hat.2 hf (fun _ => (zero_add _).symm) fun _ => rfl
  | openClose hat hf hk =>
    rcases hk with rfl | rfl <;> exact hc.allocTask hat.2 hf (fun _ => rfl) fun _ => rfl
  | install hat hfd | installWriter hat hfd =>
    refine hc.moveSlot hat.2 ?_ fun _ => rfl
    simp [FdTask.refs, freeFd_null hfd, FdSlot.count]
  | installFull hat _ => exact hc.moveTask hat.2 (fun _ => zero_add _) fun _ => rfl
  | sysClose hat hf =>
    refine hc.moveSlot hat.2 ?_ fun _ => rfl
    simp [FdTask.refs, h.ptr_file hat rfl hf, FdSlot.count]
  | @sysDup f fd hat hf =>
    have hgo := held_goto (u := s.withFiles (s.files.dup f)) hat.2 (.install f)
    refine hc.dup (h.ptr_file hat rfl hf) rfl (fun g => ?_) fun g => ?_
    · simpa [FdTask.refs] using (hgo g).1
    · simpa [FdTask.ending] using (hgo g).2
  | sysDup2 hat hf hne =>
    apply hc.dupSlot hat.2 (h.ptr_file hat rfl hf)
    · intro g
      rw [(h.refs_closeOld hat _ g).1]
      simp [FdTask.refs, FdSlot.count, add_comm]
    · exact fun g => (h.refs_closeOld hat _ g).2
  | sysPipe hat hr hw hrw hp => exact hc.sysPipe hat hr hw hrw hp
  | installReader hat hfd =>
    refine hc.moveSlot hat.2 ?_ fun _ => rfl
    simp [FdTask.refs, freeFd_null hfd, FdSlot.count, add_comm]
  | installReaderFull hat _ =>
    refine hc.moveTask hat.2 ?_ fun _ => rfl
    simp [FdTask.refs, add_comm]
  | @installWriterFull rfd r w hat _ =>
    have hslot : (s.proc a).files rfd = .file r := by
      have htask := h.task a
      rwa [hat.2] at htask
    refine hc.moveSlot hat.2 ?_ fun _ => rfl
    simp [FdTask.refs, hslot, FdSlot.count]
  | close hat hf => exact hc.drop hat.2 hf
  | release hat => exact hc.release hat
  | allocFails _ hn | kernelThread _ hn => exact (hc.procAlloc h hn).setState _ _
  | fork hat hn | forkFails hat hn | spawn hat hn =>
    exact hc.procAllocTask h hat hn (fun _ => rfl) fun _ => rfl
  | @forkNull c fd hat hn hf =>
    refine hc.moveSlot hat.2 ?_ fun _ => rfl
    intro g
    rw [(h.taskAt hat).2.2 ⟨fd, hn⟩ (le_refl fd)]
    rfl
  | @forkDup c fd f hat hn hf =>
    refine hc.dupSlot hat.2 (h.ptr_file hat rfl hf) ?_ fun _ => rfl
    simp [(h.taskAt hat).2.2 ⟨fd, hn⟩ (le_refl fd), FdTask.refs, FdSlot.count]
  | forkDone hat | inheritDone hat | reap hat _ | closeDone hat =>
    exact hc.setStateTask hat.2 (fun _ => rfl) fun _ => rfl
  | spawnFails hat | inheritNone hat hn hi | exit hat _ | closeNull hat hn hf =>
    exact hc.moveTask hat.2 (fun _ => rfl) fun _ => rfl
  | @inheritDup c fd f hat hn hi hf =>
    refine hc.dupSlot hat.2 (h.ptr_file hat rfl hf) ?_ fun _ => rfl
    simp [(h.taskAt hat).2.2 ⟨fd, hn.trans (by decide)⟩ (le_refl fd), FdTask.refs, FdSlot.count]
  | @inheritConsole c fd f hat hn hi hf =>
    refine hc.allocSlot hat.2 hf ?_ fun _ => rfl
    simp [(h.taskAt hat).2.2 ⟨fd, hn.trans (by decide)⟩ (le_refl fd), FdTask.refs, FdSlot.count]
  | inheritFails hat hn hi hf => exact hc.allocTask hat.2 hf (fun _ => rfl) fun _ => rfl
  | closeSlot hat hn hf =>
    refine hc.moveSlot hat.2 ?_ fun _ => rfl
    simp [FdTask.refs, h.closeAll_file hat hn hf, FdSlot.count]
  | clear hat hn =>
    refine hc.moveSlot hat.2 ?_ fun _ => rfl
    intro g
    rw [h.count_clear hat hn]
    rfl

end CountsStep

section Small

variable [DecidableEq ι] {s t : FdState ι} {a c : ι} {k : FdTask ι}

def Small (s : FdState ι) : Prop := ∀ a g, (s.proc a).task.refs g ≤ 2

lemma Small.setTask (h : s.Small) (hk : ∀ g, k.refs g ≤ 2) : (s.setTask a k).Small := by
  intro b g
  rw [setTask_proc]
  by_cases hb : b = a
  · simpa [hb] using hk g
  · simpa [hb] using h b g

lemma Small.setSlot {fd : Fin maxFds} {v : FdSlot} (h : s.Small) : (s.setSlot c fd v).Small := by
  intro b g
  rw [setSlot_proc]
  exact h b g

lemma Small.setState {st : ProcState} (h : s.Small) : (s.setState c st).Small := by
  intro b g
  rw [setState_proc]
  exact h b g

lemma Small.procAlloc (h : s.Small) : (s.procAlloc c).Small := by
  intro b g
  rw [procAlloc_proc]
  split_ifs
  · exact Nat.zero_le 2
  · exact h b g

omit [DecidableEq ι] in
lemma Small.withFiles (h : s.Small) (u : Files) : (s.withFiles u).Small := h

omit [DecidableEq ι] in
lemma refs_close {f g : ℕ} (hk : k.refs g ≤ 1) : (FdTask.close f k).refs g ≤ 2 := by
  simp only [FdTask.refs]
  split_ifs <;> omega

omit [DecidableEq ι] in
lemma refs_close_run (f g : ℕ) : (FdTask.close f .run : FdTask ι).refs g ≤ 1 := by
  simp only [FdTask.refs]
  split_ifs <;> omega

omit [DecidableEq ι] in
lemma refs_install (f g : ℕ) : (FdTask.install f : FdTask ι).refs g ≤ 2 := by
  simp only [FdTask.refs]
  split_ifs <;> omega

lemma Small.step (h : s.Small) (hs : Step s a t) : t.Small := by
  cases hs with
  | schedule _ _ => exact h.setState
  | sysOpen _ _ | sysDup _ _ => exact (h.withFiles _).setTask (refs_install _)
  | openClose _ _ hk =>
    apply (h.withFiles _).setTask
    rcases hk with rfl | rfl <;> exact fun _ => refs_close (Nat.zero_le 1)
  | install _ _ | installWriter _ _ | forkNull _ _ _ | clear _ _ =>
    exact h.setSlot.setTask fun _ => Nat.zero_le 2
  | installFull _ _ => exact h.setTask fun _ => refs_close (Nat.zero_le 1)
  | sysClose _ _ | closeSlot _ _ _ => exact h.setSlot.setTask fun _ => refs_close (Nat.zero_le 1)
  | sysDup2 _ _ _ =>
    apply (h.withFiles _).setSlot.setTask
    cases ((s.proc a).files _).ptr with
    | none => exact fun _ => Nat.zero_le 2
    | some g => exact fun _ => refs_close (Nat.zero_le 1)
  | sysPipe _ _ _ _ _ =>
    apply (h.withFiles _).setTask
    intro g
    simp only [FdTask.refs]
    split_ifs <;> omega
  | installReader _ _ =>
    apply h.setSlot.setTask
    intro g
    simp only [FdTask.refs]
    split_ifs <;> omega
  | installReaderFull _ _ => exact h.setTask fun g => refs_close (refs_close_run _ g)
  | installWriterFull _ _ => exact h.setSlot.setTask fun g => refs_close (refs_close_run _ g)
  | close hat _ =>
    apply (h.withFiles _).setTask
    intro g
    have hold := h a g
    rw [hat.2] at hold
    split_ifs <;> exact (Nat.le_add_right _ _).trans hold
  | release hat =>
    apply (h.withFiles _).setTask
    intro g
    have hold := h a g
    rwa [hat.2] at hold
  | allocFails _ _ | kernelThread _ _ => exact h.procAlloc.setState
  | fork _ _ | forkFails _ _ | spawn _ _ => exact h.procAlloc.setTask fun _ => Nat.zero_le 2
  | forkDup _ _ _ | inheritDup _ _ _ _ | inheritConsole _ _ _ _ =>
    exact (h.withFiles _).setSlot.setTask fun _ => Nat.zero_le 2
  | forkDone _ | inheritDone _ | reap _ _ | closeDone _ =>
    exact h.setState.setTask fun _ => Nat.zero_le 2
  | spawnFails _ | inheritNone _ _ _ | exit _ _ | closeNull _ _ _ =>
    exact h.setTask fun _ => Nat.zero_le 2
  | inheritFails _ _ _ _ => exact (h.withFiles _).setTask fun _ => refs_close (Nat.zero_le 1)

end Small

section Run

variable [Fintype ι] [DecidableEq ι] {s : FdState ι} {f : ℕ}

def pointing (s : FdState ι) (f : ℕ) : ℕ :=
  ∑ a, ∑ fd, if ((s.proc a).files fd).ptr = some f then 1 else 0

/-- The reference count of a file is the number of slots that point to it and of the references that
calls in progress hold; `slots` leaves out the slot whose file is being closed by an exit. The file
is released once, after the last of them, and a pipe has a reader or a writer as long as there is a
reference to that end. -/
structure Accounted (s : FdState ι) : Prop where
  refcount : ∀ f x, s.files.file f = some x → x.refcount = s.slots f + s.refs f
  small : ∀ f x, s.files.file f = some x → x.refcount ≤ (maxFds + 2) * Fintype.card ι
  released : ∀ f x, s.files.file f = some x → x.release ≠ .none →
    x.released = if s.slots f + s.refs f + s.ending f = 0 then 1 else 0
  freed : ∀ f x, s.files.file f = some x →
    x.freed = if s.slots f + s.refs f + s.ending f = 0 then 1 else 0
  exists_file : ∀ f, 0 < s.slots f + s.refs f + s.ending f → (s.files.file f).isSome
  readers : ∀ p y, s.files.pipe p = some y → (0 < y.readers ↔ ∃ f x, s.files.file f = some x ∧
    x.release = .reader p ∧ 0 < s.slots f + s.refs f + s.ending f)
  writers : ∀ p y, s.files.pipe p = some y → (0 < y.writers ↔ ∃ f x, s.files.file f = some x ∧
    x.release = .writer p ∧ 0 < s.slots f + s.refs f + s.ending f)
  buffer : ∀ p y, s.files.pipe p = some y →
    y.freed = if 0 < y.readers ∨ 0 < y.writers then 0 else 1
  resting : (∀ a, (s.proc a).task = .run) →
    ∀ f, s.slots f = s.pointing f ∧ s.refs f = 0 ∧ s.ending f = 0

omit [DecidableEq ι] in
lemma Accurate.freed_eq (hc : s.Accurate) {x : File} (hx : s.files.file f = some x) :
    x.freed = if s.slots f + s.refs f + s.ending f = 0 then 1 else 0 := by
  have hsum := hc.freed f x hx
  unfold held at hsum
  split_ifs at hsum ⊢ <;> omega

omit [DecidableEq ι] in
lemma Accurate.exists_file (hc : s.Accurate) (hf : 0 < s.slots f + s.refs f + s.ending f) :
    (s.files.file f).isSome := by
  cases hx : s.files.file f with
  | some x => rfl
  | none =>
    obtain ⟨hheld, hending⟩ := hc.fresh f hx
    unfold held at hheld
    omega

omit [DecidableEq ι] in
lemma Small.refcount (h : s.Small) (f : ℕ) :
    s.slots f + s.refs f ≤ (maxFds + 2) * Fintype.card ι := by
  have hcount : ∀ (v : FdSlot), v.count f ≤ 1 := by
    intro v
    cases v with
    | file g =>
      simp only [FdSlot.count]
      split_ifs <;> omega
    | null | closing g => exact Nat.zero_le 1
  have hproc : ∀ a, (s.proc a).slots f ≤ maxFds := by
    intro a
    have hle := Finset.sum_le_card_nsmul Finset.univ (fun fd => ((s.proc a).files fd).count f) 1
      fun fd _ => hcount _
    simpa [FdProc.slots] using hle
  have hslots := Finset.sum_le_card_nsmul Finset.univ (fun a => (s.proc a).slots f) maxFds
    fun a _ => hproc a
  have hrefs := Finset.sum_le_card_nsmul Finset.univ (fun a => (s.proc a).task.refs f) 2
    fun a _ => h a f
  simp only [smul_eq_mul, Finset.card_univ] at hslots hrefs
  calc s.slots f + s.refs f ≤ Fintype.card ι * maxFds + Fintype.card ι * 2 :=
        Nat.add_le_add hslots hrefs
    _ = (maxFds + 2) * Fintype.card ι := by ring

lemma Owned.resting (h : s.Owned) (hrun : ∀ a, (s.proc a).task = .run) (f : ℕ) :
    s.slots f = s.pointing f ∧ s.refs f = 0 ∧ s.ending f = 0 := by
  refine ⟨?_, ?_, ?_⟩
  · apply Finset.sum_congr rfl
    intro a _
    apply Finset.sum_congr rfl
    intro fd _
    cases hv : (s.proc a).files fd with
    | null => rfl
    | file g => simp [FdSlot.count, FdSlot.ptr, eq_comm]
    | closing g =>
      obtain ⟨b, hb⟩ := h.closing a fd g hv
      rw [hrun b] at hb
      cases hb
  · exact Finset.sum_eq_zero fun a _ => by rw [hrun a]; rfl
  · exact Finset.sum_eq_zero fun a _ => by rw [hrun a]; rfl

lemma Accurate.accounted (hc : s.Accurate) (h : s.Owned) (hs : s.Small) : s.Accounted := by
  have hends : ∀ p y, s.files.pipe p = some y → ∃ r w x z, s.files.file r = some x ∧
      x.release = .reader p ∧ s.files.file w = some z ∧ z.release = .writer p ∧
      (0 < y.readers ↔ 0 < s.slots r + s.refs r + s.ending r) ∧
      (0 < y.writers ↔ 0 < s.slots w + s.refs w + s.ending w) ∧
      y.freed = if 0 < y.readers ∨ 0 < y.writers then 0 else 1 := by
    intro p y hy
    obtain ⟨r, w, x, z, hx, hxr, hz, hzw, hreaders, hwriters, hfreed⟩ := hc.ends p y hy
    have hxf := hc.freed_eq hx
    have hzf := hc.freed_eq hz
    refine ⟨r, w, x, z, hx, hxr, hz, hzw, ?_, ?_, ?_⟩
    · rw [hreaders, hxf]
      split_ifs <;> simp <;> omega
    · rw [hwriters, hzf]
      split_ifs <;> simp <;> omega
    · rw [hfreed, hreaders, hwriters, hxf, hzf]
      split_ifs <;> simp_all
  refine ⟨?_, ?_, ?_, ?_, ?_, ?_, ?_, ?_, ?_⟩
  · intro f x hx
    rw [hc.refcount f x hx]
    exact Nat.cast_add _ _
  · intro f x hx
    rw [hc.refcount f x hx]
    exact_mod_cast hs.refcount f
  · intro f x hx hr
    rw [hc.released f x hx, if_neg hr]
    exact hc.freed_eq hx
  · exact fun f x hx => hc.freed_eq hx
  · exact fun f hf => hc.exists_file hf
  · intro p y hy
    obtain ⟨r, w, x, z, hx, hxr, -, -, hreaders, -, -⟩ := hends p y hy
    rw [hreaders]
    constructor
    · exact fun hpos => ⟨r, x, hx, hxr, hpos⟩
    · rintro ⟨g, u, hu, hur, hpos⟩
      obtain rfl := hc.one g r u x hu hx (hur.trans hxr.symm) (by simp [hur])
      exact hpos
  · intro p y hy
    obtain ⟨r, w, x, z, -, -, hz, hzw, -, hwriters, -⟩ := hends p y hy
    rw [hwriters]
    constructor
    · exact fun hpos => ⟨w, z, hz, hzw, hpos⟩
    · rintro ⟨g, u, hu, hur, hpos⟩
      obtain rfl := hc.one g w u z hu hz (hur.trans hzw.symm) (by simp [hur])
      exact hpos
  · intro p y hy
    obtain ⟨-, -, -, -, -, -, -, -, -, -, hfreed⟩ := hends p y hy
    exact hfreed
  · exact h.resting

lemma initial_inv (h : s.Initial) : s.Owned ∧ s.Accurate ∧ s.Small := by
  obtain ⟨hfile, hpipe, hproc⟩ := h
  have hnull : ∀ a fd, (s.proc a).files fd = .null := fun a fd => by rw [(hproc a).1]
  have hrun : ∀ a, (s.proc a).task = .run := fun a => (hproc a).2.1
  have hslots : ∀ f, s.held f = 0 ∧ s.ending f = 0 := by
    intro f
    refine ⟨?_, Finset.sum_eq_zero fun a _ => by rw [hrun a]; rfl⟩
    unfold held
    rw [slots, Finset.sum_eq_zero fun a _ => slots_eq_zero (hnull a), refs,
      Finset.sum_eq_zero fun a _ => by rw [hrun a]; rfl, add_zero]
  refine ⟨⟨?_, ?_, ?_, ?_, ?_⟩, ⟨?_, ?_, ?_, ?_, ?_, ?_, ?_⟩, ?_⟩
  · intro a
    rw [hrun a]
    trivial
  · intro a b c ha
    rw [hrun a] at ha
    cases ha
  · intro c fd f hf
    rw [hnull c fd] at hf
    cases hf
  · exact fun a _ => hrun a
  · exact fun c _ => hnull c
  · intro f x hx
    rw [hfile f] at hx
    cases hx
  · intro f x hx
    rw [hfile f] at hx
    cases hx
  · intro f x hx
    rw [hfile f] at hx
    cases hx
  · exact fun f _ => hslots f
  · intro p y hy
    rw [hpipe p] at hy
    cases hy
  · intro f g x z hx
    rw [hfile f] at hx
    cases hx
  · intro f x p hx
    rw [hfile f] at hx
    cases hx
  · intro a g
    rw [hrun a]
    exact Nat.zero_le 2

theorem descriptors_accounted (s : FdState ι) (h : (system ι).Reachable s) : s.Accounted := by
  have hinv : s.Owned ∧ s.Accurate ∧ s.Small := by
    apply h.invariant
    · exact fun s hs => initial_inv hs
    · rintro s a t ⟨howned, hacc, hsmall⟩ hs
      exact ⟨howned.step hs, hacc.step howned hs, hsmall.step hs⟩
  exact hinv.2.1.accounted hinv.1 hinv.2.2

end Run

section Boot

local instance neZero_two : NeZero 2 := ⟨two_ne_zero⟩

def booted : FdState (Fin 2) where
  files := ⟨fun _ => none, fun _ => none⟩
  proc a := ⟨if a = 0 then .running else .unused, a = 0, fun _ => .null, .run⟩

def imageOpened : FdState (Fin 2) :=
  let s := ((booted.procAlloc 1).setState 1 .ready).setState 1 .running
  (s.withFiles (s.files.alloc 0)).setTask 1 (.close 0 .spawn)

lemma imageOpened_reachable : (system (Fin 2)).Reachable imageOpened := by
  apply System.Reachable.step (1 : Fin 2) _
  · apply Step.openClose
    · exact ⟨rfl, rfl⟩
    · rfl
    · exact Or.inr rfl
  · apply System.Reachable.step (1 : Fin 2) _ (Step.schedule rfl rfl)
    apply System.Reachable.step (0 : Fin 2) _ (Step.kernelThread ⟨rfl, rfl⟩ rfl)
    refine .init ⟨fun _ => rfl, fun _ => rfl, fun a => ⟨rfl, rfl, ?_⟩⟩
    simp [booted]

theorem descriptors_accounted_imageOpened : imageOpened.Accounted :=
  descriptors_accounted imageOpened imageOpened_reachable

end Boot

end FdState

end MyOS.Proc
