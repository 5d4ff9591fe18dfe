import Mathlib.Tactic

/-! Lists of actions joined by "and then", "or else" and "then", and the loop that runs them with the last connector. -/

namespace MyOS.AndOrLists

inductive Connector
  | always | and | or
  deriving DecidableEq

inductive AndOr (ι : Type*)
  | item (i : ι)
  | and (t : AndOr ι) (i : ι)
  | or (t : AndOr ι) (i : ι)

variable {ι σ : Type*}

def group (t : AndOr ι) : Connector → List (ι × Connector) → List (AndOr ι)
  | _, [] => [t]
  | .always, (i, d) :: l => t :: group (.item i) d l
  | .and, (i, d) :: l => group (.and t i) d l
  | .or, (i, d) :: l => group (.or t i) d l

def andOrs : List (ι × Connector) → List (AndOr ι)
  | [] => []
  | (i, d) :: l => group (.item i) d l

variable (act : Bool → ι → σ → σ) (ok : σ → Bool)

def AndOr.eval : AndOr ι → σ → σ
  | .item i, s => act true i s
  | .and t i, s => act (ok (t.eval s)) i (t.eval s)
  | .or t i, s => act (!ok (t.eval s)) i (t.eval s)

def evalAll (ts : List (AndOr ι)) (s : σ) : σ := ts.foldl (fun s t => t.eval act ok s) s

def wanted (c : Connector) (s : σ) : Bool :=
  match c with
  | .always => true
  | .and => ok s
  | .or => !ok s

def loop : Connector → List (ι × Connector) → σ → σ
  | _, [], s => s
  | c, (i, d) :: l, s => loop d l (act (wanted ok c s) i s)

variable {act ok}

lemma loop_eval (t : AndOr ι) (c : Connector) (l : List (ι × Connector)) (s : σ) :
    loop act ok c l (t.eval act ok s) = evalAll act ok (group t c l) s := by
  induction l generalizing t c s with
  | nil => cases c <;> rfl
  | cons x l ih =>
    obtain ⟨i, d⟩ := x
    cases c with
    | always => exact ih (.item i) d (t.eval act ok s)
    | and => exact ih (.and t i) d s
    | or => exact ih (.or t i) d s

theorem loop_eq (l : List (ι × Connector)) (s : σ) : loop act ok .always l s = evalAll act ok (andOrs l) s := by
  cases l with
  | nil => rfl
  | cons x l => exact loop_eval (.item x.1) x.2 l s

end MyOS.AndOrLists
