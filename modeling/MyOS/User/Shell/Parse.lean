import MyOS.User.Shell.Lex

/-! The parser of the shell: from tokens to pipelines. -/

namespace MyOS.User.Shell

def argsMax : ℕ := 64
def redirMax : ℕ := 8
def pipeMax : ℕ := 16

inductive RedirType
  | input | output | append
  deriving DecidableEq

inductive Redir
  | file (type : RedirType) (fd : ℕ) (path : Text)
  | dup (fd dupFrom : ℕ)
  deriving DecidableEq

structure Cmd where
  argv : List Text := []
  redirs : List Redir := []
  deriving DecidableEq

structure Pipeline where
  init : List Cmd
  final : Cmd
  background : Bool
  deriving DecidableEq

def addArg (c : Cmd) (s : Text) : Option Cmd :=
  if c.argv.length = argsMax then none else some { c with argv := c.argv ++ [s] }

def Token.redir : Token → Option (RedirType × ℕ)
  | .input => some (.input, 0)
  | .output => some (.output, 1)
  | .append => some (.append, 1)
  | .errOut => some (.output, 2)
  | .errAppend => some (.append, 2)
  | _ => none

/-- What the words are expanded with: variables, and the names of files for a pattern, so many at most. -/
structure Lookup where
  vars : Vars
  glob : Text → ℕ → List Text

variable (x : Lookup)

def Cmd.addWord (c : Cmd) (parts : List Part) : Option Cmd :=
  match expandWord x.vars (rawText parts) with
  | (none, _) => some c
  | (some word, glob, _) =>
    let found := if glob then x.glob word (argsMax - c.argv.length) else []
    (if found = [] then [word] else found).foldlM addArg c

def Cmd.addRedir (c : Cmd) (type : RedirType) (fd : ℕ) : Option Token → Option Cmd
  | some (.word parts) =>
    if c.redirs.length = redirMax then none
    else (expandWord x.vars (rawText parts)).1.map fun path => { c with redirs := c.redirs ++ [.file type fd path] }
  | _ => none

/-- The loop of `parse_pipeline` at the token `i`, with what is left of the tokens; the result has the place of the
token behind the pipeline. -/
def parseFrom (i : ℕ) (init : List Cmd) (c : Cmd) : List Token → Option (Pipeline × ℕ)
  | [] => none
  | t :: toks =>
    match t with
    | .word parts => (c.addWord x parts).bind fun c => parseFrom (i + 1) init c toks
    | .errToOut =>
      if c.redirs.length = redirMax then none
      else parseFrom (i + 1) init { c with redirs := c.redirs ++ [.dup 2 1] } toks
    | .pipe =>
      if c.argv = [] ∨ init.length + 1 = pipeMax then none else parseFrom (i + 1) (init ++ [c]) {} toks
    | t =>
      match t.redir with
      | some (type, fd) => (c.addRedir x type fd toks.head?).bind fun c => parseFrom (i + 2) init c toks.tail
      | none =>
        if c.argv = [] ∧ c.redirs = [] ∧ (init ≠ [] ∨ t ≠ .semi) then none else some (⟨init, c, t = .amp⟩, i)
termination_by toks => toks.length
decreasing_by all_goals (simp only [List.length_cons, List.length_tail]; omega)

def parsePipeline (toks : List Token) (pos : ℕ) : Option (Pipeline × ℕ) := parseFrom x pos [] {} (toks.drop pos)

def Pipeline.first (pl : Pipeline) : Cmd := pl.init.headD pl.final

def Token.ends : Token → Bool
  | .semi | .amp | .and | .or | .last => true
  | _ => false

variable {x} {body rest : List Token} {t : Token}

lemma addRedir_ends {c : Cmd} {type : RedirType} {fd : ℕ} (h : t.ends = true) :
    c.addRedir x type fd (some t) = none := by
  cases t <;> first | rfl | exact nomatch h

lemma parseFrom_ends {i : ℕ} {init : List Cmd} {c : Cmd} (h : t.ends = true) : parseFrom x i init c (t :: rest) =
    if c.argv = [] ∧ c.redirs = [] ∧ (init ≠ [] ∨ t ≠ .semi) then none else some (⟨init, c, t = .amp⟩, i) := by
  cases t <;> simp only [Token.ends, Bool.false_eq_true] at h <;> simp only [parseFrom, Token.redir]

lemma parseFrom_redir {i : ℕ} {init : List Cmd} {c : Cmd} {type : RedirType} {fd : ℕ}
    (h : t.redir = some (type, fd)) : parseFrom x i init c (t :: rest) =
      (c.addRedir x type fd rest.head?).bind fun c => parseFrom x (i + 2) init c rest.tail := by
  cases t <;> simp only [Token.redir, reduceCtorEq, Option.some.injEq, Prod.mk.injEq] at h <;>
    obtain ⟨rfl, rfl⟩ := h <;> simp only [parseFrom, Token.redir]

lemma ends_of_redir (hw : ∀ parts, t ≠ .word parts) (he : t ≠ .errToOut) (hp : t ≠ .pipe) (hr : t.redir = none) :
    t.ends = true := by
  cases t with
  | word parts => exact absurd rfl (hw parts)
  | errToOut => exact absurd rfl he
  | pipe => exact absurd rfl hp
  | semi | amp | and | or | last => rfl
  | input | output | append | errOut | errAppend => exact nomatch hr

lemma parseFrom_shift (k i : ℕ) (init : List Cmd) (c : Cmd) (toks : List Token) :
    parseFrom x (i + k) init c toks = (parseFrom x i init c toks).map fun r => (r.1, r.2 + k) := by
  induction i, init, c, toks using parseFrom.induct with
  | case1 => simp only [parseFrom, Option.map_none]
  | case2 i init c toks parts ih =>
    simp only [parseFrom, Option.map_bind]
    refine congrArg _ (funext fun c => ?_)
    rw [Nat.add_right_comm]
    exact ih c
  | case3 i init c toks h | case5 i init c toks h =>
    simp only [parseFrom, if_pos h, Option.map_none]
  | case4 i init c toks h ih | case6 i init c toks h ih =>
    simp only [parseFrom, if_neg h]
    rw [Nat.add_right_comm]
    exact ih
  | case7 i init c toks t hw he hp type fd hr ih =>
    rw [parseFrom_redir hr, parseFrom_redir hr, Option.map_bind]
    refine congrArg _ (funext fun c => ?_)
    rw [Nat.add_right_comm]
    exact ih c
  | case8 i init c toks t hw he hp hr h =>
    rw [parseFrom_ends (ends_of_redir hw he hp hr), parseFrom_ends (ends_of_redir hw he hp hr), if_pos h, if_pos h,
      Option.map_none]
  | case9 i init c toks t hw he hp hr h =>
    rw [parseFrom_ends (ends_of_redir hw he hp hr), parseFrom_ends (ends_of_redir hw he hp hr), if_neg h, if_neg h]
    rfl

lemma parseFrom_append (i : ℕ) (init : List Cmd) (c : Cmd) (hb : ∀ b ∈ body, b.ends = false) (ht : t.ends = true) :
    parseFrom x i init c (body ++ t :: rest) = parseFrom x i init c (body ++ [t]) := by
  induction i, init, c, body using parseFrom.induct with
  | case1 i init c => rw [List.nil_append, List.nil_append, parseFrom_ends ht, parseFrom_ends ht]
  | case2 i init c body parts ih =>
    simp only [List.cons_append, parseFrom]
    exact congrArg _ (funext fun c => ih c fun b hm => hb b (List.mem_cons_of_mem _ hm))
  | case3 i init c body h | case5 i init c body h =>
    simp only [List.cons_append, parseFrom, if_pos h]
  | case4 i init c body h ih | case6 i init c body h ih =>
    simp only [List.cons_append, parseFrom, if_neg h]
    exact ih fun b hm => hb b (List.mem_cons_of_mem _ hm)
  | case7 i init c body d hw he hp type fd hr ih =>
    rw [List.cons_append, List.cons_append, parseFrom_redir hr, parseFrom_redir hr]
    cases body with
    | nil =>
      rw [List.nil_append, List.nil_append, List.head?_cons, List.head?_cons, addRedir_ends ht]
      rfl
    | cons b body =>
      refine congrArg _ (funext fun c => ih c fun b' hm => hb b' ?_)
      exact List.mem_cons_of_mem _ (List.mem_cons_of_mem _ hm)
  | case8 i init c body d hw he hp hr h | case9 i init c body d hw he hp hr h =>
    exact absurd (ends_of_redir hw he hp hr) (by rw [hb d List.mem_cons_self]; decide)

lemma parseFrom_place {i j : ℕ} {init : List Cmd} {c : Cmd} {pl : Pipeline} (hb : ∀ b ∈ body, b.ends = false)
    (ht : t.ends = true) (h : parseFrom x i init c (body ++ [t]) = some (pl, j)) : j = i + body.length := by
  induction i, init, c, body using parseFrom.induct with
  | case1 i init c =>
    rw [List.nil_append, parseFrom_ends ht] at h
    split at h
    · exact nomatch h
    · exact (Prod.mk.inj (Option.some.inj h)).2.symm
  | case2 i init c body parts ih =>
    simp only [List.cons_append, parseFrom] at h
    obtain ⟨c', -, h⟩ := Option.bind_eq_some_iff.1 h
    rw [ih c' (fun b hm => hb b (List.mem_cons_of_mem _ hm)) h, List.length_cons]
    omega
  | case3 i init c body hf | case5 i init c body hf =>
    simp only [List.cons_append, parseFrom, if_pos hf, reduceCtorEq] at h
  | case4 i init c body hf ih | case6 i init c body hf ih =>
    simp only [List.cons_append, parseFrom, if_neg hf] at h
    rw [ih (fun b hm => hb b (List.mem_cons_of_mem _ hm)) h, List.length_cons]
    omega
  | case7 i init c body d hw he hp type fd hr ih =>
    rw [List.cons_append, parseFrom_redir hr] at h
    obtain ⟨c', hc, h⟩ := Option.bind_eq_some_iff.1 h
    cases body with
    | nil =>
      rw [List.nil_append, List.head?_cons, addRedir_ends ht] at hc
      exact nomatch hc
    | cons b body =>
      rw [ih c' (fun b' hm => hb b' (List.mem_cons_of_mem _ (List.mem_cons_of_mem _ hm))) h, List.tail_cons,
        List.length_cons, List.length_cons]
      omega
  | case8 i init c body d hw he hp hr hf | case9 i init c body d hw he hp hr hf =>
    exact absurd (ends_of_redir hw he hp hr) (by rw [hb d List.mem_cons_self]; decide)

end MyOS.User.Shell
