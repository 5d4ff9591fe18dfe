import Mathlib.Tactic

/-! Programs that write to a store step by step, and what they leave when they are interrupted. -/

namespace MyOS.Library

def Crashing (σ ε α : Type) : Type := σ → Except ε α × List σ

namespace Crashing

variable {σ ε α β : Type}

instance : Monad (Crashing σ ε) where
  pure a := fun _ => (.ok a, [])
  bind x f := fun s => match x s with
    | (.ok a, l) => ((f a (l.getLastD s)).1, l ++ (f a (l.getLastD s)).2)
    | (.error e, l) => (.error e, l)

def fail (e : ε) : Crashing σ ε α := fun _ => (.error e, [])

def read (f : σ → α) : Crashing σ ε α := fun s => (.ok (f s), [])

def write (f : σ → σ) : Crashing σ ε Unit := fun s => (.ok (), [f s])

variable (x : Crashing σ ε α) (s : σ)

def result : Except ε α := (x s).1

def writes : ℕ := (x s).2.length

def final : σ := (x s).2.getLastD s

def cut (k : ℕ) : σ := ((x s).2.take k).getLastD s

variable {x s} {f : α → Crashing σ ε β} {a : α} {e : ε} {g : σ → σ} {k : ℕ}

@[simp]
lemma cut_zero : x.cut s 0 = s := by rw [cut, List.take_zero, List.getLastD_nil]

lemma cut_of_writes_le (h : x.writes s ≤ k) : x.cut s k = x.final s := by
  rw [cut, List.take_of_length_le h, final]

lemma cut_writes : x.cut s (x.writes s) = x.final s := cut_of_writes_le le_rfl

lemma exists_cut_eq_final (x : Crashing σ ε α) (s : σ) (n : ℕ) : ∃ k, k ≠ n ∧ x.cut s k = x.final s :=
  ⟨x.writes s + n + 1, by omega, cut_of_writes_le (by omega)⟩

@[simp]
lemma cut_pure : (pure a : Crashing σ ε α).cut s k = s := by
  have hnil : ((pure a : Crashing σ ε α) s).2 = [] := rfl
  rw [cut, hnil, List.take_nil, List.getLastD_nil]

@[simp]
lemma final_pure : (pure a : Crashing σ ε α).final s = s := rfl

@[simp]
lemma result_pure : (pure a : Crashing σ ε α).result s = .ok a := rfl

@[simp]
lemma cut_fail : (fail e : Crashing σ ε α).cut s k = s := by
  have hnil : ((fail e : Crashing σ ε α) s).2 = [] := rfl
  rw [cut, hnil, List.take_nil, List.getLastD_nil]

@[simp]
lemma result_fail : (fail e : Crashing σ ε α).result s = .error e := rfl

lemma bind_of_ok (h : x.result s = .ok a) :
    (x >>= f) s = ((f a).result (x.final s), (x s).2 ++ (f a (x.final s)).2) := by
  have hx : x s = (.ok a, (x s).2) := Prod.ext h rfl
  have hbind : (x >>= f) s = match x s with
    | (.ok a, l) => ((f a (l.getLastD s)).1, l ++ (f a (l.getLastD s)).2)
    | (.error e, l) => (.error e, l) := rfl
  rw [hbind, hx]
  rfl

lemma bind_of_error (h : x.result s = .error e) : (x >>= f) s = (.error e, (x s).2) := by
  have hx : x s = (.error e, (x s).2) := Prod.ext h rfl
  have hbind : (x >>= f) s = match x s with
    | (.ok a, l) => ((f a (l.getLastD s)).1, l ++ (f a (l.getLastD s)).2)
    | (.error e, l) => (.error e, l) := rfl
  rw [hbind, hx]

lemma result_bind (h : x.result s = .ok a) : (x >>= f).result s = (f a).result (x.final s) := by
  rw [result, bind_of_ok h]

lemma result_bind_error (h : x.result s = .error e) : (x >>= f).result s = .error e := by
  rw [result, bind_of_error h]

lemma writes_bind (h : x.result s = .ok a) : (x >>= f).writes s = x.writes s + (f a).writes (x.final s) := by
  rw [writes, bind_of_ok h, List.length_append]
  rfl

lemma writes_bind_error (h : x.result s = .error e) : (x >>= f).writes s = x.writes s := by
  rw [writes, bind_of_error h, writes]

lemma getLastD_append (l l' : List σ) : (l ++ l').getLastD s = l'.getLastD (l.getLastD s) := by
  induction l generalizing s with
  | nil => rfl
  | cons a l ih =>
    rw [List.cons_append, List.getLastD_cons, List.getLastD_cons]
    exact ih

lemma final_bind (h : x.result s = .ok a) : (x >>= f).final s = (f a).final (x.final s) := by
  rw [final, bind_of_ok h, getLastD_append]
  rfl

lemma cut_bind_of_le (h : k ≤ x.writes s) : (x >>= f).cut s k = x.cut s k := by
  cases hr : x.result s with
  | ok a => rw [cut, bind_of_ok hr, List.take_append_of_le_length h, cut]
  | error e => rw [cut, bind_of_error hr, cut]

lemma cut_bind_error (h : x.result s = .error e) : (x >>= f).cut s k = x.cut s k := by
  rw [cut, bind_of_error h, cut]

lemma cut_bind_add (h : x.result s = .ok a) : (x >>= f).cut s (x.writes s + k) = (f a).cut (x.final s) k := by
  have hall : (x s).2.length ≤ x.writes s + k := Nat.le_add_right _ _
  have hrest : x.writes s + k - (x s).2.length = k := Nat.add_sub_cancel_left _ k
  rw [cut, bind_of_ok h, List.take_append, List.take_of_length_le hall, getLastD_append, hrest]
  rfl

lemma cut_congr {y : Crashing σ ε α} (h : x s = y s) : x.cut s k = y.cut s k := by rw [cut, cut, h]

lemma final_congr {y : Crashing σ ε α} (h : x s = y s) : x.final s = y.final s := by rw [final, final, h]

lemma result_congr {y : Crashing σ ε α} (h : x s = y s) : x.result s = y.result s := by rw [result, result, h]

lemma writes_congr {y : Crashing σ ε α} (h : x s = y s) : x.writes s = y.writes s := by rw [writes, writes, h]

lemma bind_of_reads (h : x s = (.ok a, [])) : (x >>= f) s = f a s := by
  have hfinal : x.final s = s := by
    rw [final, h]
    rfl
  rw [bind_of_ok (congrArg Prod.fst h), hfinal, h, List.nil_append]
  rfl

section Read

variable {r : σ → α}

lemma read_bind : ((read r : Crashing σ ε α) >>= f) s = f (r s) s := rfl

end Read

section Write

variable {h : Unit → Crashing σ ε β}

@[simp]
lemma writes_write : (write g : Crashing σ ε Unit).writes s = 1 := rfl

lemma cut_write_bind : ((write g : Crashing σ ε Unit) >>= h).cut s (k + 1) = (h ()).cut (g s) k := by
  rw [Nat.add_comm]
  exact cut_bind_add rfl

end Write

end Crashing

end MyOS.Library
