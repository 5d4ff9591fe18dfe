import MyOS.Library.Bytes

/-! Programs that read a memory, with the extents that they have read. -/

namespace MyOS.Library

/-- A program that reads the memory: its result, and the address and the size of each read. -/
def Reading (α : Type) : Type := (ℕ → UInt8) → α × List (ℕ × ℕ)

namespace Reading

variable {α β : Type}

instance : Monad Reading where
  pure a := fun _ => (a, [])
  bind x f := fun m => ((f (x m).1 m).1, (x m).2 ++ (f (x m).1 m).2)

def read (a n : ℕ) : Reading ℕ := fun m => (Bytes.read m a n, [(a, n)])

def load (a n : ℕ) : Reading (List UInt8) := fun m => (Bytes.load m a n, [(a, n)])

def Stays (x : Reading α) (m : ℕ → UInt8) (stop : ℕ) : Prop := ∀ e ∈ (x m).2, e.1 + e.2 ≤ stop

variable {m : ℕ → UInt8} {stop : ℕ} {x : Reading α} {f : α → Reading β}

@[simp]
lemma pure_fst (a : α) : ((pure a : Reading α) m).1 = a := rfl

@[simp]
lemma bind_fst : ((x >>= f) m).1 = (f (x m).1 m).1 := rfl

@[simp]
lemma read_fst (a n : ℕ) : (read a n m).1 = Bytes.read m a n := rfl

@[simp]
lemma load_fst (a n : ℕ) : (load a n m).1 = Bytes.load m a n := rfl

lemma ite_fst {c : Prop} [Decidable c] {x y : Reading α} :
    ((if c then x else y) m).1 = if c then (x m).1 else (y m).1 := by split_ifs <;> rfl

@[simp]
lemma stays_pure (a : α) : (pure a : Reading α).Stays m stop := fun _ he => by cases he

@[simp]
lemma stays_bind : (x >>= f).Stays m stop ↔ x.Stays m stop ∧ (f (x m).1).Stays m stop :=
  List.forall_mem_append

@[simp]
lemma stays_read (a n : ℕ) : (read a n).Stays m stop ↔ a + n ≤ stop := List.forall_mem_singleton

@[simp]
lemma stays_load (a n : ℕ) : (load a n).Stays m stop ↔ a + n ≤ stop := List.forall_mem_singleton

lemma stays_ite {c : Prop} [Decidable c] {x y : Reading α} :
    (if c then x else y).Stays m stop ↔ (c → x.Stays m stop) ∧ (¬ c → y.Stays m stop) := by
  split_ifs with h
  · exact ⟨fun hx => ⟨fun _ => hx, fun hn => absurd h hn⟩, fun hb => hb.1 h⟩
  · exact ⟨fun hy => ⟨fun hc => absurd hc h, fun _ => hy⟩, fun hb => hb.2 h⟩

end Reading

/-- A reading whose loops have so many rounds; `none` when these are used up. -/
def Looping (α : Type) : Type := ℕ → Reading (Option α)

namespace Looping

variable {α β : Type}

instance : Monad Looping where
  pure a := fun _ => pure (some a)
  bind x f := fun n => do
    match ← x n with
    | some a => f a n
    | none => pure none

instance : MonadLift Reading Looping where
  monadLift x := fun _ => do
    let a ← x
    pure (some a)

section Loop

variable {σ : Type}

def loop (body : σ → Looping (σ ⊕ α)) (s : σ) : Looping α
  | 0 => pure none
  | n + 1 => do
    match ← body s n with
    | some (.inl s') => loop body s' n
    | some (.inr a) => pure (some a)
    | none => pure none

end Loop

def Finishes (x : Looping α) (m : ℕ → UInt8) (stop n : ℕ) (a : α) : Prop :=
  (x n m).1 = some a ∧ (x n).Stays m stop

/-- However many rounds it has, the program reads below `stop` only; with enough of them it ends with
`a`. -/
structure Runs (x : Looping α) (m : ℕ → UInt8) (stop : ℕ) (a : α) : Prop where
  stays : ∀ n, (x n).Stays m stop
  only : ∀ n b, (x n m).1 = some b → b = a
  ends : ∃ k, ∀ n, k ≤ n → (x n m).1 = some a

variable {m : ℕ → UInt8} {stop n : ℕ} {x : Looping α} {f : α → Looping β} {r : Reading α} {a : α} {b : β}

lemma finishes_pure {c : α} : (pure a : Looping α).Finishes m stop n c ↔ c = a := by
  refine ⟨fun h => (Option.some.inj h.1).symm, ?_⟩
  rintro rfl
  exact ⟨rfl, Reading.stays_pure _⟩

lemma finishes_lift {c : α} : (liftM r : Looping α).Finishes m stop n c ↔ c = (r m).1 ∧ r.Stays m stop := by
  have hstays : (liftM r : Looping α) n = (r >>= fun a => pure (some a)) := rfl
  rw [Finishes, hstays, Reading.stays_bind, Reading.bind_fst, Reading.pure_fst, Option.some.injEq, eq_comm]
  simp

lemma bind_fst_some (h : (x n m).1 = some a) : ((x >>= f) n m).1 = (f a n m).1 := by
  have hbind : (x >>= f) n = x n >>= fun o => match o with | some a => f a n | none => pure none := rfl
  rw [hbind, Reading.bind_fst, h]

lemma bind_fst_none (h : (x n m).1 = none) : ((x >>= f) n m).1 = none := by
  have hbind : (x >>= f) n = x n >>= fun o => match o with | some a => f a n | none => pure none := rfl
  rw [hbind, Reading.bind_fst, h, Reading.pure_fst]

lemma stays_bind : ((x >>= f) n).Stays m stop ↔
    (x n).Stays m stop ∧ ∀ a, (x n m).1 = some a → (f a n).Stays m stop := by
  have hbind : (x >>= f) n = x n >>= fun o => match o with | some a => f a n | none => pure none := rfl
  rw [hbind, Reading.stays_bind]
  cases (x n m).1 <;> simp

lemma finishes_bind : (x >>= f).Finishes m stop n b ↔
    ∃ a, x.Finishes m stop n a ∧ (f a).Finishes m stop n b := by
  constructor
  · intro ⟨hb, hs⟩
    obtain ⟨hx, hf⟩ := stays_bind.1 hs
    cases ha : (x n m).1 with
    | none => exact absurd (hb.symm.trans (bind_fst_none ha)) (by simp)
    | some a => exact ⟨a, ⟨ha, hx⟩, (bind_fst_some ha).symm.trans hb, hf a ha⟩
  · intro ⟨a, ⟨ha, hx⟩, hb, hf⟩
    refine ⟨(bind_fst_some ha).trans hb, stays_bind.2 ⟨hx, fun a' ha' => ?_⟩⟩
    cases ha.symm.trans ha'
    exact hf

lemma Runs.pure (a : α) : (pure a : Looping α).Runs m stop a where
  stays _ := Reading.stays_pure _
  only _ _ h := (Option.some.inj h).symm
  ends := ⟨0, fun _ _ => rfl⟩

lemma Runs.lift (h : r.Stays m stop) : (liftM r : Looping α).Runs m stop (r m).1 where
  stays n := (finishes_lift (n := n).2 ⟨rfl, h⟩).2
  only _ _ h := (Option.some.inj h).symm
  ends := ⟨0, fun _ _ => rfl⟩

lemma Runs.bind (hx : x.Runs m stop a) (hf : (f a).Runs m stop b) : (x >>= f).Runs m stop b where
  stays n := stays_bind.2 ⟨hx.stays n, fun a' h => hx.only n a' h ▸ hf.stays n⟩
  only n c h := by
    cases ha : (x n m).1 with
    | none => exact absurd (h.symm.trans (bind_fst_none ha)) (by simp)
    | some a' =>
      obtain rfl := hx.only n a' ha
      exact hf.only n c ((bind_fst_some ha).symm.trans h)
  ends := by
    obtain ⟨k, hk⟩ := hx.ends
    obtain ⟨l, hl⟩ := hf.ends
    exact ⟨max k l, fun n hn => (bind_fst_some (hk n (by omega))).trans (hl n (by omega))⟩

lemma Runs.read {k : ℕ} {f : ℕ → Looping β} (hk : n + k ≤ stop) (hf : (f (Bytes.read m n k)).Runs m stop b) :
    ((liftM (Reading.read n k) : Looping ℕ) >>= f).Runs m stop b :=
  .bind (.lift ((Reading.stays_read n k).2 hk)) hf

section Branch

variable {c : Prop} [Decidable c] {y : Looping α}

lemma Runs.if_pos (hc : c) (h : x.Runs m stop a) : (if c then x else y).Runs m stop a := by
  simpa only [hc, if_true] using h

lemma Runs.if_neg (hc : ¬ c) (h : y.Runs m stop a) : (if c then x else y).Runs m stop a := by
  simpa only [hc, if_false] using h

end Branch
lemma finishes_ite {c : Prop} [Decidable c] {y : Looping α} :
    (if c then x else y).Finishes m stop n a ↔
      (c → x.Finishes m stop n a) ∧ (¬ c → y.Finishes m stop n a) := by
  by_cases h : c <;> simp [h]

section Loop

variable {σ : Type} {body : σ → Looping (σ ⊕ α)} {s s' : σ}

lemma loop_fst_some {r : σ ⊕ α} (h : (body s n m).1 = some r) :
    (loop body s (n + 1) m).1 = r.elim (fun s' => (loop body s' n m).1) some := by
  rw [loop, Reading.bind_fst, h]
  cases r <;> rfl

lemma loop_fst_none (h : (body s n m).1 = none) : (loop body s (n + 1) m).1 = none := by
  rw [loop, Reading.bind_fst, h, Reading.pure_fst]

lemma stays_loop : (loop body s (n + 1)).Stays m stop ↔
    (body s n).Stays m stop ∧ ∀ s', (body s n m).1 = some (.inl s') → (loop body s' n).Stays m stop := by
  rw [loop, Reading.stays_bind]
  rcases (body s n m).1 with _ | _ | _ <;> simp

lemma not_finishes_loop_zero : ¬ (loop body s).Finishes m stop 0 a := fun h => by cases h.1

lemma finishes_loop : (loop body s).Finishes m stop (n + 1) a ↔
    (body s).Finishes m stop n (.inr a) ∨
      ∃ s', (body s).Finishes m stop n (.inl s') ∧ (loop body s').Finishes m stop n a := by
  rw [Finishes, stays_loop]
  rcases h : (body s n m).1 with _ | s' | a'
  · simp [Finishes, h, loop_fst_none h]
  · simp [Finishes, h, loop_fst_some h]
    tauto
  · simp [Finishes, h, loop_fst_some h]

lemma Runs.loop_done (h : (body s).Runs m stop (.inr a)) : (loop body s).Runs m stop a where
  stays n := by
    cases n with
    | zero => exact Reading.stays_pure _
    | succ n => exact stays_loop.2 ⟨h.stays n, fun s' hs => by cases h.only n _ hs⟩
  only n b hb := by
    cases n with
    | zero => cases hb
    | succ n =>
      rcases hr : (body s n m).1 with _ | r
      · exact absurd ((loop_fst_none hr).symm.trans hb) (by simp)
      · obtain rfl := h.only n r hr
        exact (Option.some.inj ((loop_fst_some hr).symm.trans hb)).symm
  ends := by
    obtain ⟨k, hk⟩ := h.ends
    refine ⟨k + 1, fun n hn => ?_⟩
    obtain ⟨n, rfl⟩ : ∃ l, n = l + 1 := ⟨n - 1, by omega⟩
    exact loop_fst_some (hk n (by omega))

lemma Runs.loop_step (h : (body s).Runs m stop (.inl s')) (hl : (loop body s').Runs m stop a) :
    (loop body s).Runs m stop a where
  stays n := by
    cases n with
    | zero => exact Reading.stays_pure _
    | succ n =>
      refine stays_loop.2 ⟨h.stays n, fun t ht => ?_⟩
      cases h.only n _ ht
      exact hl.stays n
  only n b hb := by
    cases n with
    | zero => cases hb
    | succ n =>
      rcases hr : (body s n m).1 with _ | r
      · exact absurd ((loop_fst_none hr).symm.trans hb) (by simp)
      · obtain rfl := h.only n r hr
        exact hl.only n b ((loop_fst_some hr).symm.trans hb)
  ends := by
    obtain ⟨k, hk⟩ := h.ends
    obtain ⟨l, hl⟩ := hl.ends
    refine ⟨max k l + 1, fun n hn => ?_⟩
    obtain ⟨n, rfl⟩ : ∃ l, n = l + 1 := ⟨n - 1, by omega⟩
    exact (loop_fst_some (hk n (by omega))).trans (hl n (by omega))

end Loop

end Looping

end MyOS.Library
