import MyOS.Library.AndOrLists
import MyOS.User.Printf
import MyOS.User.Shell.Parse

/-! `run_line` of the shell: pipelines joined by `;`, `&`, `&&` and `||`. -/

namespace MyOS.User.Shell

/-- What `run_line` needs of the rest of the system. `exec` is what `run_pipeline` comes to when it does not go through
`run_line`; `script` are the lines that `run_script` reads and passes on to `run_line`, with what the redirections have
done before, and `finish` is what is done behind it. -/
structure System (σ : Type*) where
  pid : ℤ
  get : σ → Text → Option Text
  glob : σ → Text → ℕ → List Text
  exec : Pipeline → σ → ℤ × σ
  script : Text → Pipeline → σ → Option (List Text × σ)
  finish : σ → σ

structure Ran (σ : Type*) where
  pipeline : Pipeline
  before : σ
  status : ℤ

/-- `toks` of `run_line`, which is static, and `last_status`; `ran` is not in the source. -/
structure State (σ : Type*) where
  toks : List Token := []
  lastStatus : ℤ := 0
  world : σ
  ran : List (Ran σ) := []

def written : ℕ → Text → List Token
  | 0, _ => []
  | room + 1, p =>
    match nextToken p with
    | none => [.word []]
    | some none => [.last]
    | some (some (t, r)) => t :: written room r

variable {σ : Type*} (sys : System σ)

def Pipeline.sourced (pl : Pipeline) : Option Text :=
  if pl.init = [] ∧ pl.background = false ∧ (pl.final.argv.head? = some [46] ∨ pl.final.argv.head? =
      some [115, 111, 117, 114, 99, 101]) then pl.final.argv[1]?
  else none

def System.reenters (pl : Pipeline) (w : σ) : Option (List Text × σ) :=
  pl.sourced.bind fun path => sys.script path pl w

namespace State

def lookup (sh : State σ) : Lookup := ⟨⟨intText sh.lastStatus, intText sys.pid, sys.get sh.world⟩, sys.glob sh.world⟩

def lineWith (loop : ℕ → Token → State σ → Option (State σ)) (sh : State σ) (line : Text) : Option (State σ) :=
  let toks := written (tokensMax - 1) line
  let sh := { sh with toks := toks ++ sh.toks.drop toks.length }
  match lex line with
  | none => some { sh with lastStatus := 2 }
  | some _ => loop 0 .semi sh

def pipelineWith (loop : ℕ → Token → State σ → Option (State σ)) (pl : Pipeline) (sh : State σ) : Option (State σ) :=
  match sys.reenters pl sh.world with
  | none =>
    let r := sys.exec pl sh.world
    some { sh with lastStatus := r.1, world := r.2, ran := sh.ran ++ [⟨pl, sh.world, r.1⟩] }
  | some (lines, w) =>
    (lines.foldlM (lineWith loop) { sh with world := w }).map fun sh' =>
      { sh' with world := sys.finish sh'.world, ran := sh'.ran ++ [⟨pl, sh.world, sh'.lastStatus⟩] }

def loop : ℕ → ℕ → Token → State σ → Option (State σ)
  | 0, _, _, _ => none
  | fuel + 1, pos, connector, sh =>
    if sh.toks[pos]? = some .last then some sh
    else
      match parsePipeline (sh.lookup sys) sh.toks pos with
      | none => some { sh with lastStatus := 2 }
      | some (pl, pos) =>
        let run := connector = .semi ∨ connector = .amp ∨ (connector = .and ∧ sh.lastStatus = 0) ∨
          (connector = .or ∧ sh.lastStatus ≠ 0)
        (if run ∧ (pl.first.argv ≠ [] ∨ pl.first.redirs ≠ []) then pipelineWith sys (loop fuel) pl sh
          else some sh).bind fun sh =>
        sh.toks[pos]?.bind fun connector => loop fuel (if connector = .last then pos else pos + 1) connector sh

def runLine (fuel : ℕ) (sh : State σ) (line : Text) : Option (State σ) := lineWith (loop sys fuel) sh line

end State

end MyOS.User.Shell

/-! What a line of the shell means: pipelines with and-or lists from the left. -/

namespace MyOS.User.Shell

structure Leaf where
  body : List Token
  ending : Token

def Leaf.tokens (l : Leaf) : List Token := l.body ++ [l.ending]

def leavesFrom (body : List Token) : List Token → List Leaf
  | [] => []
  | t :: toks =>
    if t.ends then ⟨body, t⟩ :: if t = .last ∨ toks.head? = some .last then [] else leavesFrom [] toks
    else leavesFrom (body ++ [t]) toks

def leaves (toks : List Token) : List Leaf := if toks.head? = some .last then [] else leavesFrom [] toks

open AndOrLists (Connector)

def Token.connector : Token → Connector
  | .and => .and
  | .or => .or
  | _ => .always

structure Visit (σ : Type*) where
  leaf : Leaf
  wanted : Bool
  before : σ

structure Result (σ : Type*) where
  world : σ
  ran : List (Ran σ) := []
  visited : List (Visit σ) := []
  failed : Bool := false

variable {σ : Type*} (sys : System σ) (number : ℤ → Text) (init : ℤ)

def Visit.parse (v : Visit σ) (status : Text) : Option (Pipeline × ℕ) :=
  parseFrom ⟨⟨status, intText sys.pid, sys.get v.before⟩, sys.glob v.before⟩ 0 [] {} v.leaf.tokens

/-- What the pipeline is does not depend on what `$?` stands for; of one that is not run, whether it is one. -/
def Visit.StatusFree (v : Visit σ) : Prop := ∀ s t,
  if v.wanted then v.parse sys s = v.parse sys t else (v.parse sys s).isSome = (v.parse sys t).isSome

namespace Result

def lastStatus (x : Result σ) : ℤ := x.ran.getLast?.elim init Ran.status

def status (x : Result σ) : ℤ := if x.failed then 2 else x.lastStatus init

def act (wanted : Bool) (l : Leaf) (x : Result σ) : Result σ :=
  if x.failed then x
  else
    let v : Visit σ := ⟨l, wanted, x.world⟩
    let x := { x with visited := x.visited ++ [v] }
    match v.parse sys (number (x.lastStatus init)) with
    | none => { x with failed := true }
    | some (pl, _) =>
      if wanted ∧ (pl.first.argv ≠ [] ∨ pl.first.redirs ≠ []) then
        { x with
          world := (sys.exec pl x.world).2
          ran := x.ran ++ [⟨pl, x.world, (sys.exec pl x.world).1⟩] }
      else x

def ok (x : Result σ) : Bool := x.lastStatus init = 0

end Result

def meaningOf (w : σ) (toks : List Token) : Result σ :=
  AndOrLists.evalAll (Result.act sys number init) (Result.ok init)
    (AndOrLists.andOrs ((leaves toks).map fun l => (l, l.ending.connector))) { world := w }

/-- The meaning of a line when `$?` stands for the text that `number` makes of a status. -/
def meaning (w : σ) (line : Text) : Result σ :=
  match lex line with
  | none => { world := w, failed := true }
  | some toks => meaningOf sys number init w toks

def Whole (toks : List Token) : Prop := ∃ body, toks = body ++ [.last] ∧ Token.last ∉ body

lemma lexOp_ne_last {p r : Text} {t : Token} (h : lexOp p = some (t, r)) : t ≠ .last := by
  rw [lexOp.eq_def] at h
  split at h <;> cases h <;> nofun

lemma nextToken_ne_last {p r : Text} {t : Token} (h : nextToken p = some (some (t, r))) : t ≠ .last := by
  rw [nextToken] at h
  split at h
  · cases h
  · next c q _ =>
    split_ifs at h with hc
    · cases h
    split at h
    · next y hy =>
      cases h
      exact lexOp_ne_last hy
    · obtain ⟨y, -, hy⟩ := Option.map_eq_some_iff.1 h
      rw [← (Prod.mk.inj (Option.some.inj hy)).1]
      rintro ⟨⟩

lemma lexFrom_whole {room : ℕ} {p : Text} {toks : List Token} (h : lexFrom room p = some toks) : Whole toks := by
  induction room generalizing p toks with
  | zero => exact nomatch h
  | succ room ih =>
    rw [lexFrom] at h
    split at h
    · exact nomatch h
    · cases h
      exact ⟨[], rfl, List.not_mem_nil⟩
    · next t r hn =>
      obtain ⟨toks', hl, rfl⟩ := Option.map_eq_some_iff.1 h
      obtain ⟨body, rfl, hb⟩ := ih hl
      refine ⟨t :: body, rfl, ?_⟩
      rw [List.mem_cons, not_or]
      exact ⟨(nextToken_ne_last hn).symm, hb⟩

lemma written_eq {room : ℕ} {p : Text} {toks : List Token} (h : lexFrom room p = some toks) :
    written room p = toks := by
  induction room generalizing p toks with
  | zero => exact nomatch h
  | succ room ih =>
    rw [lexFrom] at h
    rw [written]
    rcases hn : nextToken p with _ | _ | ⟨t, r⟩
    · rw [hn] at h
      exact nomatch h
    · rw [hn] at h
      exact Option.some.inj h
    · rw [hn] at h
      obtain ⟨toks', hl, rfl⟩ := Option.map_eq_some_iff.1 h
      exact congrArg (t :: ·) (ih hl)

lemma length_lexFrom {room : ℕ} {p : Text} {toks : List Token} (h : lexFrom room p = some toks) :
    toks.length ≤ room := by
  induction room generalizing p toks with
  | zero => exact nomatch h
  | succ room ih =>
    rw [lexFrom] at h
    split at h
    · exact nomatch h
    · cases h
      exact Nat.succ_le_succ (Nat.zero_le room)
    · obtain ⟨toks', hl, rfl⟩ := Option.map_eq_some_iff.1 h
      exact Nat.succ_le_succ (ih hl)

lemma leavesFrom_append {init body rest : List Token} {t : Token} (hb : ∀ b ∈ body, b.ends = false) :
    leavesFrom init (body ++ t :: rest) = leavesFrom (init ++ body) (t :: rest) := by
  induction body generalizing init with
  | nil => rw [List.append_nil]; rfl
  | cons b body ih =>
    rw [List.cons_append, leavesFrom, if_neg (by rw [hb b List.mem_cons_self]; decide),
      ih fun d hd => hb d (List.mem_cons_of_mem b hd), List.append_assoc]
    rfl

lemma exists_ending (toks : List Token) : (∀ b ∈ toks, b.ends = false) ∨ ∃ body t rest,
    toks = body ++ t :: rest ∧ (∀ b ∈ body, b.ends = false) ∧ t.ends = true := by
  induction toks with
  | nil => exact .inl fun b hb => absurd hb List.not_mem_nil
  | cons d toks ih =>
    cases hd : d.ends with
    | true => exact .inr ⟨[], d, toks, rfl, fun b hb => absurd hb List.not_mem_nil, hd⟩
    | false =>
      rcases ih with h | ⟨body, t, rest, rfl, hb, ht⟩
      · exact .inl fun b hb => (List.mem_cons.1 hb).elim (fun he => he ▸ hd) (h b)
      · exact .inr ⟨d :: body, t, rest, rfl, fun b hm => (List.mem_cons.1 hm).elim (fun he => he ▸ hd) (hb b), ht⟩

lemma leaves_append {body rest : List Token} {t : Token} (hne : (body ++ t :: rest).head? ≠ some .last)
    (hb : ∀ b ∈ body, b.ends = false) (ht : t.ends = true) :
    leaves (body ++ t :: rest) = ⟨body, t⟩ :: leaves (if t = .last then [.last] else rest) := by
  rw [leaves, if_neg hne, leavesFrom_append hb, leavesFrom, if_pos ht, List.nil_append]
  by_cases hl : t = .last
  · rw [if_pos (.inl hl), if_pos hl]
    rfl
  · rw [if_neg hl, leaves]
    by_cases hr : rest.head? = some .last
    · rw [if_pos (.inr hr), if_pos hr]
    · rw [if_neg (not_or.2 ⟨hl, hr⟩), if_neg hr]

lemma leavesFrom_prefix (body toks : List Token) : (leavesFrom body toks).flatMap Leaf.tokens <+: body ++ toks := by
  induction toks generalizing body with
  | nil => exact List.nil_prefix
  | cons t toks ih =>
    rw [leavesFrom]
    split
    · rw [List.flatMap_cons, Leaf.tokens, List.append_assoc, List.prefix_append_right_inj]
      split
      · exact List.prefix_append [t] toks
      · exact (List.prefix_append_right_inj [t]).2 (ih [])
    · have h := ih (body ++ [t])
      rwa [List.append_assoc] at h

lemma leaves_prefix (toks : List Token) : (leaves toks).flatMap Leaf.tokens <+: toks := by
  rw [leaves]
  split
  · exact List.nil_prefix
  · exact leavesFrom_prefix [] toks

lemma Whole.cases {toks : List Token} (h : Whole toks) : toks = [.last] ∨ ∃ body t rest,
    toks = body ++ t :: rest ∧ toks.head? ≠ some .last ∧ (∀ b ∈ body, b.ends = false) ∧ t.ends = true ∧
    Whole (if t = .last then [.last] else rest) ∧
    (if t = .last then [Token.last] else rest).length < toks.length := by
  obtain ⟨whole, rfl, hw⟩ := h
  by_cases hnil : whole = []
  · exact .inl (by rw [hnil]; rfl)
  have hhead : (whole ++ [Token.last]).head? ≠ some .last := by
    cases whole with
    | nil => exact absurd rfl hnil
    | cons b whole =>
      intro he
      exact hw (Option.some.inj he ▸ List.mem_cons_self)
  have hpos := List.length_pos_iff.2 hnil
  right
  rcases exists_ending whole with hb | ⟨body, t, rest, rfl, hb, ht⟩
  · refine ⟨whole, .last, [], rfl, hhead, hb, rfl, ⟨[], rfl, List.not_mem_nil⟩, ?_⟩
    rw [if_pos rfl, List.length_append]
    exact Nat.lt_add_of_pos_left hpos
  · have htl : t ≠ .last := fun he => hw (List.mem_append_right _ (he ▸ List.mem_cons_self))
    refine ⟨body, t, rest ++ [.last], by simp, hhead, hb, ht, ?_, ?_⟩
    · rw [if_neg htl]
      exact ⟨rest, rfl, fun hm => hw (List.mem_append_right _ (List.mem_cons_of_mem _ hm))⟩
    · rw [if_neg htl]
      simp only [List.length_append, List.length_cons]
      omega

end MyOS.User.Shell

/-! `run_line` does what a line means. -/

namespace MyOS.User.Shell

variable {σ : Type*} {sys : System σ} {number : ℤ → Text} {init : ℤ} {x : Result σ}

namespace Result

def visit (x : Result σ) (wanted : Bool) (l : Leaf) : Result σ :=
  { x with visited := x.visited ++ [⟨l, wanted, x.world⟩] }

def parse (sys : System σ) (number : ℤ → Text) (init : ℤ) (x : Result σ) (wanted : Bool) (l : Leaf) :
    Option (Pipeline × ℕ) := Visit.parse sys ⟨l, wanted, x.world⟩ (number (x.lastStatus init))

lemma act_failed (hx : x.failed = true) (wanted : Bool) (l : Leaf) : x.act sys number init wanted l = x := if_pos hx

lemma act_none (hx : x.failed = false) {l : Leaf} {wanted : Bool} (hp : x.parse sys number init wanted l = none) :
    x.act sys number init wanted l = { x.visit wanted l with failed := true } := by
  rw [parse] at hp
  rw [act, hx, if_neg (by decide)]
  dsimp only [lastStatus] at hp ⊢
  rw [hp]
  rfl

lemma act_some (hx : x.failed = false) {l : Leaf} {pl : Pipeline} {j : ℕ} {wanted : Bool}
    (hp : x.parse sys number init wanted l = some (pl, j)) :
    x.act sys number init wanted l = if wanted ∧ (pl.first.argv ≠ [] ∨ pl.first.redirs ≠ []) then
      { x.visit wanted l with
        world := (sys.exec pl x.world).2, ran := x.ran ++ [⟨pl, x.world, (sys.exec pl x.world).1⟩] }
    else x.visit wanted l := by
  rw [parse] at hp
  rw [act, if_neg (by rw [hx]; decide)]
  dsimp only [lastStatus] at hp ⊢
  rw [hp]
  rfl

lemma loop_failed (hx : x.failed = true) (c : AndOrLists.Connector) (ls : List (Leaf × AndOrLists.Connector)) :
    AndOrLists.loop (act sys number init) (ok init) c ls x = x := by
  induction ls generalizing c with
  | nil => rfl
  | cons l ls ih =>
    rw [AndOrLists.loop, act_failed hx]
    exact ih l.2

lemma act_cases (wanted : Bool) (l : Leaf) (x : Result σ) :
    x.failed = true ∧ x.act sys number init wanted l = x ∨
    x.failed = false ∧ (x.act sys number init wanted l).visited = x.visited ++ [⟨l, wanted, x.world⟩] ∧
      x.ran <+: (x.act sys number init wanted l).ran := by
  cases hx : x.failed with
  | true => exact .inl ⟨rfl, act_failed hx wanted l⟩
  | false =>
    refine .inr ⟨rfl, ?_⟩
    rcases hp : x.parse sys number init wanted l with _ | ⟨pl, j⟩
    · rw [act_none hx hp]
      exact ⟨rfl, List.prefix_rfl⟩
    · rw [act_some hx hp]
      split
      · exact ⟨rfl, List.prefix_append _ _⟩
      · exact ⟨rfl, List.prefix_rfl⟩

lemma ran_loop (c : AndOrLists.Connector) (ls : List (Leaf × AndOrLists.Connector)) (x : Result σ) :
    x.ran <+: (AndOrLists.loop (act sys number init) (ok init) c ls x).ran := by
  induction ls generalizing c x with
  | nil => exact List.prefix_rfl
  | cons l ls ih =>
    refine List.IsPrefix.trans ?_ (ih l.2 _)
    rcases act_cases (AndOrLists.wanted (ok init) c x) l.1 x with ⟨-, h⟩ | ⟨-, -, h⟩
    · rw [h]
    · exact h

lemma visited_loop (c : AndOrLists.Connector) (ls : List (Leaf × AndOrLists.Connector)) (x : Result σ) :
    x.visited <+: (AndOrLists.loop (act sys number init) (ok init) c ls x).visited := by
  induction ls generalizing c x with
  | nil => exact List.prefix_rfl
  | cons l ls ih =>
    refine List.IsPrefix.trans ?_ (ih l.2 _)
    rcases act_cases (AndOrLists.wanted (ok init) c x) l.1 x with ⟨-, h⟩ | ⟨-, h, -⟩
    · rw [h]
    · rw [h]
      exact List.prefix_append _ _

lemma act_statusFree {number' : ℤ → Text} {wanted : Bool} {l : Leaf}
    (h : x.failed = false → Visit.StatusFree sys ⟨l, wanted, x.world⟩) :
    x.act sys number init wanted l = x.act sys number' init wanted l := by
  cases hx : x.failed with
  | true => rw [act_failed hx, act_failed hx]
  | false =>
    have hfree := h hx (number (x.lastStatus init)) (number' (x.lastStatus init))
    cases wanted with
    | true =>
      have hparse : x.parse sys number init true l = x.parse sys number' init true l := hfree
      rcases hp : x.parse sys number init true l with _ | ⟨pl, j⟩
      · rw [act_none hx hp, act_none hx (hparse.symm.trans hp)]
      · rw [act_some hx hp, act_some hx (hparse.symm.trans hp)]
    | false =>
      have hparse : (x.parse sys number init false l).isSome = (x.parse sys number' init false l).isSome := hfree
      rcases hp : x.parse sys number init false l with _ | ⟨pl, j⟩
      · rw [hp, Option.isSome_none, eq_comm, Option.isSome_eq_false_iff, Option.isNone_iff_eq_none] at hparse
        rw [act_none hx hp, act_none hx hparse]
      · rw [hp, Option.isSome_some, eq_comm, Option.isSome_iff_exists] at hparse
        obtain ⟨⟨pl', j'⟩, hp'⟩ := hparse
        rw [act_some hx hp, act_some hx hp', if_neg (fun h => Bool.false_ne_true h.1),
          if_neg (fun h => Bool.false_ne_true h.1)]

lemma loop_statusFree {number' : ℤ → Text} (c : AndOrLists.Connector) (ls : List (Leaf × AndOrLists.Connector))
    (h : ∀ v ∈ (AndOrLists.loop (act sys number init) (ok init) c ls x).visited, v.StatusFree sys) :
    AndOrLists.loop (act sys number init) (ok init) c ls x = AndOrLists.loop (act sys number' init) (ok init) c ls x := by
  induction ls generalizing c x with
  | nil => rfl
  | cons l ls ih =>
    have hact : x.act sys number init (AndOrLists.wanted (ok init) c x) l.1 =
        x.act sys number' init (AndOrLists.wanted (ok init) c x) l.1 := by
      refine act_statusFree fun hx => h _ ((visited_loop l.2 ls _).subset ?_)
      rcases act_cases (AndOrLists.wanted (ok init) c x) l.1 x with ⟨hf, -⟩ | ⟨-, hv, -⟩
      · exact absurd (hx.symm.trans hf) Bool.false_ne_true
      · rw [hv]
        exact List.mem_append_right _ List.mem_cons_self
    rw [AndOrLists.loop, AndOrLists.loop, ← hact]
    exact ih l.2 h

end Result

structure Agrees (init : ℤ) (base : List (Ran σ)) (sh : State σ) (x : Result σ) : Prop where
  lastStatus : sh.lastStatus = x.status init
  world : sh.world = x.world
  ran : sh.ran = base ++ x.ran

lemma wanted_iff {conn : Token} (hc : conn.ends = true) (hl : conn ≠ .last) : (conn = .semi ∨ conn = .amp ∨
    (conn = .and ∧ x.lastStatus init = 0) ∨ (conn = .or ∧ x.lastStatus init ≠ 0)) ↔
      AndOrLists.wanted (Result.ok init) conn.connector x = true := by
  cases conn <;> simp_all [Token.ends, Token.connector, AndOrLists.wanted, Result.ok]

lemma pipeline_agrees {base : List (Ran σ)} {sh : State σ} (h : Agrees init base sh x) (hx : x.failed = false)
    (loop : ℕ → Token → State σ → Option (State σ)) {pl : Pipeline} (hr : sys.reenters pl x.world = none) :
    ∃ sh', State.pipelineWith sys loop pl sh = some sh' ∧ sh'.toks = sh.toks ∧ ∀ visited, Agrees init base sh'
      { x with
        visited, world := (sys.exec pl x.world).2, ran := x.ran ++ [⟨pl, x.world, (sys.exec pl x.world).1⟩] } := by
  rw [State.pipelineWith, h.world, hr]
  refine ⟨_, rfl, rfl, fun visited => ⟨?_, rfl, ?_⟩⟩
  · simp [Result.status, Result.lastStatus, hx]
  · rw [h.ran, List.append_assoc]

lemma round_agrees {base : List (Ran σ)} {sh : State σ} {l : Leaf} {conn : Token} {pl : Pipeline} {j : ℕ}
    (h : Agrees init base sh x) (hx : x.failed = false) (loop : ℕ → Token → State σ → Option (State σ))
    (hc : conn.ends = true) (hl : conn ≠ .last)
    (hp : x.parse sys intText init (AndOrLists.wanted (Result.ok init) conn.connector x) l = some (pl, j))
    (hno : ∀ r ∈ (x.act sys intText init (AndOrLists.wanted (Result.ok init) conn.connector x) l).ran,
      sys.reenters r.pipeline r.before = none) :
    ∃ sh', (if (conn = .semi ∨ conn = .amp ∨ (conn = .and ∧ sh.lastStatus = 0) ∨
        (conn = .or ∧ sh.lastStatus ≠ 0)) ∧ (pl.first.argv ≠ [] ∨ pl.first.redirs ≠ []) then
        State.pipelineWith sys loop pl sh else some sh) = some sh' ∧ sh'.toks = sh.toks ∧
      Agrees init base sh' (x.act sys intText init (AndOrLists.wanted (Result.ok init) conn.connector x) l) ∧
      (x.act sys intText init (AndOrLists.wanted (Result.ok init) conn.connector x) l).failed = false := by
  have hs : sh.lastStatus = x.lastStatus init := by
    rw [h.lastStatus, Result.status, hx]
    rfl
  simp only [hs, wanted_iff hc hl]
  rw [Result.act_some hx hp] at hno ⊢
  split
  · next hw =>
    rw [if_pos hw] at hno
    obtain ⟨sh', he, ht, ha⟩ := pipeline_agrees h hx loop (hno _ (List.mem_append_right _ List.mem_cons_self))
    exact ⟨sh', he, ht, ha _, hx⟩
  · exact ⟨sh, rfl, rfl, ⟨h.lastStatus, h.world, h.ran⟩, hx⟩

lemma loop_agrees (fuel : ℕ) {pos : ℕ} {conn : Token} {sh : State σ} {toks junk : List Token} {base : List (Ran σ)}
    (hx : x.failed = false) (h : Agrees init base sh x) (hpos : sh.toks.drop pos = toks ++ junk) (hw : Whole toks)
    (hfuel : toks.length ≤ fuel) (hconn : conn.ends = true) (hlast : conn = .last → toks = [.last])
    (hno : ∀ r ∈ (AndOrLists.loop (Result.act sys intText init) (Result.ok init) conn.connector
      ((leaves toks).map fun l => (l, l.ending.connector)) x).ran, sys.reenters r.pipeline r.before = none) :
    ∃ sh', State.loop sys fuel pos conn sh = some sh' ∧ Agrees init base sh'
      (AndOrLists.loop (Result.act sys intText init) (Result.ok init) conn.connector
        ((leaves toks).map fun l => (l, l.ending.connector)) x) := by
  induction fuel generalizing pos conn sh toks junk x with
  | zero =>
    obtain ⟨body, rfl, -⟩ := hw
    simp at hfuel
  | succ fuel ih =>
    have hget : sh.toks[pos]? = (toks ++ junk).head? := by rw [← hpos, List.head?_drop]
    rw [State.loop, hget]
    rcases hw.cases with rfl | ⟨body, t, rest, rfl, hhead, hb, ht, hrest, hlen⟩
    · exact ⟨sh, rfl, h⟩
    · have hne : (body ++ t :: rest ++ junk).head? ≠ some .last := by
        intro he
        rw [List.head?_append_of_ne_nil _ (by simp)] at he
        exact hhead he
      have hcl : conn ≠ .last := fun hc => hhead (by rw [hlast hc]; rfl)
      have hlook : sh.lookup sys =
          ⟨⟨intText (x.lastStatus init), intText sys.pid, sys.get x.world⟩, sys.glob x.world⟩ := by
        rw [State.lookup, h.lastStatus, h.world, Result.status, hx]
        rfl
      have hparse : parsePipeline (sh.lookup sys) sh.toks pos =
          (x.parse sys intText init (AndOrLists.wanted (Result.ok init) conn.connector x) ⟨body, t⟩).map
            fun r => (r.1, r.2 + pos) := by
        rw [parsePipeline, hpos, List.append_assoc, List.cons_append, parseFrom_append pos [] {} hb ht, hlook,
          Result.parse, Visit.parse, Leaf.tokens, ← parseFrom_shift, Nat.zero_add]
      rw [leaves_append hhead hb ht, List.map_cons, AndOrLists.loop] at hno ⊢
      rw [if_neg hne, hparse]
      cases hp : x.parse sys intText init (AndOrLists.wanted (Result.ok init) conn.connector x) ⟨body, t⟩ with
      | none =>
        refine ⟨_, rfl, ?_⟩
        rw [Result.act_none hx hp, Result.loop_failed rfl]
        exact ⟨rfl, h.world, h.ran⟩
      | some r =>
        obtain ⟨pl, j⟩ := r
        have hj : j = body.length := (parseFrom_place hb ht hp).trans (Nat.zero_add _)
        obtain ⟨sh₁, he, htoks, ha, hf⟩ := round_agrees h hx (State.loop sys fuel) hconn hcl (l := ⟨body, t⟩) hp
          fun r hr => hno r ((Result.ran_loop _ _ _).subset hr)
        simp only [Option.map_some]
        rw [he, Option.bind_some, htoks]
        have hat : sh.toks[j + pos]? = some t := by
          rw [Nat.add_comm, ← List.getElem?_drop, hpos, hj]
          simp
        rw [hat, Option.bind_some]
        have hdrop : sh₁.toks.drop (j + pos) = t :: (rest ++ junk) := by
          rw [htoks, hj, Nat.add_comm, ← List.drop_drop, hpos, List.append_assoc, List.drop_left]
          rfl
        have hshort : (if t = .last then [Token.last] else rest).length ≤ fuel := by omega
        by_cases hl : t = .last
        · rw [if_pos hl] at hrest hshort hno ⊢
          rw [if_pos hl]
          have hend : sh₁.toks.drop (j + pos) = [Token.last] ++ (rest ++ junk) := by
            rw [hdrop, hl]
            rfl
          exact ih hf ha hend hrest hshort ht (fun _ => rfl) hno
        · rw [if_neg hl] at hrest hshort hno ⊢
          rw [if_neg hl]
          have hnext : sh₁.toks.drop (j + pos + 1) = rest ++ junk := by
            rw [← List.drop_drop, hdrop]
            rfl
          exact ih hf ha hnext hrest hshort ht (fun he => absurd he hl) hno

lemma runLine_agrees (sh : State σ) (line : Text) {fuel : ℕ} (hfuel : tokensMax ≤ fuel)
    (hno : ∀ r ∈ (meaning sys intText sh.lastStatus sh.world line).ran, sys.reenters r.pipeline r.before = none) :
    ∃ sh', sh.runLine sys fuel line = some sh' ∧
      Agrees sh.lastStatus sh.ran sh' (meaning sys intText sh.lastStatus sh.world line) := by
  rw [State.runLine, State.lineWith]
  cases hlex : lex line with
  | none =>
    refine ⟨_, rfl, ?_⟩
    rw [meaning, hlex]
    exact ⟨rfl, rfl, (List.append_nil _).symm⟩
  | some toks =>
    rw [meaning, hlex] at hno ⊢
    dsimp only at hno ⊢
    rw [meaningOf, ← AndOrLists.loop_eq] at hno ⊢
    rw [written_eq hlex]
    refine loop_agrees fuel rfl ⟨rfl, rfl, (List.append_nil _).symm⟩ rfl (lexFrom_whole hlex) ?_ rfl nofun hno
    exact (length_lexFrom hlex).trans ((Nat.sub_le _ _).trans hfuel)

lemma meaning_statusFree (number' : ℤ → Text) {w : σ} {line : Text}
    (h : ∀ v ∈ (meaning sys number init w line).visited, v.StatusFree sys) :
    meaning sys number init w line = meaning sys number' init w line := by
  rw [meaning] at h ⊢
  rw [meaning]
  cases hlex : lex line with
  | none => rfl
  | some toks =>
    rw [hlex] at h
    dsimp only [meaningOf] at h ⊢
    rw [← AndOrLists.loop_eq] at h ⊢
    rw [← AndOrLists.loop_eq]
    exact Result.loop_statusFree .always _ h

theorem runLine_meaning (sys : System σ) (sh : State σ) (line : Text) (fuel : ℕ) (hfuel : tokensMax ≤ fuel) :
    (∀ toks, lex line = some toks → (leaves toks).flatMap Leaf.tokens <+: toks) ∧
      ((∀ r ∈ (meaning sys intText sh.lastStatus sh.world line).ran, sys.reenters r.pipeline r.before = none) →
        ∃ sh', sh.runLine sys fuel line = some sh' ∧
          Agrees sh.lastStatus sh.ran sh' (meaning sys intText sh.lastStatus sh.world line)) ∧
      ((∀ v ∈ (meaning sys decimal sh.lastStatus sh.world line).visited, v.StatusFree sys) →
        (∀ r ∈ (meaning sys decimal sh.lastStatus sh.world line).ran, sys.reenters r.pipeline r.before = none) →
        ∃ sh', sh.runLine sys fuel line = some sh' ∧
          Agrees sh.lastStatus sh.ran sh' (meaning sys decimal sh.lastStatus sh.world line)) := by
  refine ⟨fun toks _ => leaves_prefix toks, runLine_agrees sh line hfuel, fun hfree hno => ?_⟩
  rw [meaning_statusFree intText hfree] at hno ⊢
  exact runLine_agrees sh line hfuel hno

def sampleSystem (line : Text) : System Unit where
  pid := 1
  get _ _ := none
  glob _ _ _ := []
  exec _ w := (1, w)
  script _ _ w := some ([line], w)
  finish w := w

lemma expandWord_letter (v : Vars) {c : UInt8} (h : c ∉ [singleQuote, doubleQuote, backslash, dollar, 42, 63]) :
    expandWord v [c] = (some [c], false, false) := by
  simp only [List.mem_cons, List.not_mem_nil, or_false, not_or] at h
  simp [expandWord, expandFrom, h, WBuf.putc, lineMax]

lemma sample_statusFree (script line : Text) (ls : List (List Token × Token))
    (hv : (meaning (sampleSystem script) decimal 0 () line).visited.map (fun v => (v.leaf.body, v.leaf.ending)) = ls)
    (h : ∀ l ∈ ls, ∀ s t, parseFrom ⟨⟨s, intText 1, fun _ => none⟩, fun _ _ => []⟩ 0 [] {} (l.1 ++ [l.2]) =
      parseFrom ⟨⟨t, intText 1, fun _ => none⟩, fun _ _ => []⟩ 0 [] {} (l.1 ++ [l.2])) :
    ∀ v ∈ (meaning (sampleSystem script) decimal 0 () line).visited, v.StatusFree (sampleSystem script) := by
  intro v hm s t
  have hparse : v.parse (sampleSystem script) s = v.parse (sampleSystem script) t :=
    h (v.leaf.body, v.leaf.ending) (hv ▸ List.mem_map_of_mem hm) s t
  rw [hparse]
  split <;> rfl

theorem runLine_meaning_and_or : ∃ sh', State.runLine (sampleSystem []) 128 { world := () }
      [97, 32, 38, 38, 32, 98, 32, 124, 124, 32, 99] = some sh' ∧
    sh'.ran.map (fun r => r.pipeline.first.argv) = [[[97]], [[99]]] := by
  have hfree := sample_statusFree [] [97, 32, 38, 38, 32, 98, 32, 124, 124, 32, 99]
    [([.word [.plain 97]], .and), ([.word [.plain 98]], .or), ([.word [.plain 99]], .last)] (by decide +kernel)
    (by simp [parseFrom, Cmd.addWord, rawText, Part.text,
      expandWord_letter _ (c := 97) (by decide), expandWord_letter _ (c := 98) (by decide), expandWord_letter _ (c := 99) (by decide)])
  obtain ⟨sh', he, ha⟩ := (runLine_meaning (sampleSystem []) { world := () }
    [97, 32, 38, 38, 32, 98, 32, 124, 124, 32, 99] 128 (by decide)).2.2 hfree (by decide +kernel)
  refine ⟨sh', he, ?_⟩
  rw [ha.ran]
  decide +kernel

theorem runLine_script : (¬ ∀ (sys : System Unit) (sh : State Unit) (line : Text) (fuel : ℕ), tokensMax ≤ fuel →
      (∀ v ∈ (meaning sys decimal sh.lastStatus sh.world line).visited, v.StatusFree sys) →
      ∃ sh', sh.runLine sys fuel line = some sh' ∧
        Agrees sh.lastStatus sh.ran sh' (meaning sys decimal sh.lastStatus sh.world line)) ∧
    ¬ ∀ (sys : System Unit) (sh : State Unit) (line : Text) (fuel : ℕ), tokensMax ≤ fuel →
      (∀ r ∈ (meaning sys decimal sh.lastStatus sh.world line).ran, sys.reenters r.pipeline r.before = none) →
      ∃ sh', sh.runLine sys fuel line = some sh' ∧
        Agrees sh.lastStatus sh.ran sh' (meaning sys decimal sh.lastStatus sh.world line) := by
  constructor
  · intro h
    have hfree := sample_statusFree [59, 59, 59] [46, 32, 102, 59, 101]
      [([.word [.plain 46], .word [.plain 102]], .semi), ([.word [.plain 101]], .last)] (by decide +kernel)
      (by simp [parseFrom, Cmd.addWord, rawText, Part.text,
        expandWord_letter _ (c := 46) (by decide), expandWord_letter _ (c := 102) (by decide), expandWord_letter _ (c := 101) (by decide)])
    obtain ⟨sh', he, ha⟩ := h (sampleSystem [59, 59, 59]) { world := () } [46, 32, 102, 59, 101] 128 (by decide) hfree
    have hran : (State.runLine (sampleSystem [59, 59, 59]) 128 { world := () } [46, 32, 102, 59, 101]).map
        (fun sh => sh.ran.length) = some 1 := by decide +kernel
    have hlen := congrArg List.length ha.ran
    rw [he] at hran
    have hone : sh'.ran.length = 1 := Option.some.inj hran
    rw [hone] at hlen
    revert hlen
    decide +kernel
  · intro h
    obtain ⟨sh', he, ha⟩ := h (sampleSystem []) { world := () } [36, 63] 128 (by decide) (by decide +kernel)
    have hran : (State.runLine (sampleSystem []) 128 { world := () } [36, 63]).map
        (fun sh => sh.ran.map fun r => r.pipeline.first.argv) = some [[[63]]] := by decide +kernel
    have hargs := congrArg (List.map fun r : Ran Unit => r.pipeline.first.argv) ha.ran
    rw [he] at hran
    have hmark : sh'.ran.map (fun r => r.pipeline.first.argv) = [[[63]]] := Option.some.inj hran
    rw [hmark] at hargs
    revert hargs
    decide +kernel

end MyOS.User.Shell
