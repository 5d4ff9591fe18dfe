import MyOS.User.Shell.ReadLine

/-! The lexer of the shell, and the expansion of its words. -/

namespace MyOS.User.Shell

abbrev Text := List UInt8

def tokensMax : ℕ := 128

def singleQuote : UInt8 := 39
def doubleQuote : UInt8 := 34
def backslash : UInt8 := 92
def dollar : UInt8 := 36

/-- The part of a word that one round of a scanner goes over; `unclosed` is a quote that nothing closes. -/
inductive Part
  | plain (c : UInt8)
  | escape (c : UInt8)
  | quoted (quote : UInt8) (inside : Text)
  | unclosed (quote : UInt8) (inside : Text)
  deriving DecidableEq

def Part.text : Part → Text
  | .plain c => [c]
  | .escape c => [backslash, c]
  | .quoted q t => q :: (t ++ [q])
  | .unclosed q t => q :: t

def rawText (ps : List Part) : Text := ps.flatMap Part.text

inductive Token
  | word (parts : List Part)
  | pipe | or | amp | and | semi | input | output | append | errOut | errAppend | errToOut | last
  deriving DecidableEq

def IsBlank (c : UInt8) : Prop := c = 32 ∨ c = 9 ∨ c = 10 ∨ c = 13

instance (c : UInt8) : Decidable (IsBlank c) := inferInstanceAs (Decidable (_ ∨ _))

def IsOpChar (c : UInt8) : Prop := c = 124 ∨ c = 38 ∨ c = 59 ∨ c = 60 ∨ c = 62

instance (c : UInt8) : Decidable (IsOpChar c) := inferInstanceAs (Decidable (_ ∨ _))

def lexOp : Text → Option (Token × Text)
  | 50 :: 62 :: 38 :: 49 :: p => some (.errToOut, p)
  | 50 :: 62 :: 62 :: p => some (.errAppend, p)
  | 50 :: 62 :: p => some (.errOut, p)
  | 124 :: 124 :: p => some (.or, p)
  | 38 :: 38 :: p => some (.and, p)
  | 62 :: 62 :: p => some (.append, p)
  | 124 :: p => some (.pipe, p)
  | 38 :: p => some (.amp, p)
  | 59 :: p => some (.semi, p)
  | 60 :: p => some (.input, p)
  | 62 :: p => some (.output, p)
  | _ => none

/-- The text in front of the first `q` and the text behind it, which `strchr` looks for. -/
def splitAtFirst (q : UInt8) : Text → Option (Text × Text)
  | [] => none
  | c :: p => if c = q then some ([], p) else (splitAtFirst q p).map fun (t, r) => (c :: t, r)

lemma splitAtFirst_eq {q : UInt8} {p t r : Text} (h : splitAtFirst q p = some (t, r)) :
    p = t ++ q :: r ∧ q ∉ t := by
  induction p generalizing t with
  | nil => exact nomatch h
  | cons c p ih =>
    rw [splitAtFirst] at h
    split_ifs at h with hc
    · obtain ⟨rfl, rfl⟩ := Prod.mk.inj (Option.some.inj h)
      exact ⟨by rw [hc]; rfl, List.not_mem_nil⟩
    · obtain ⟨⟨t', r'⟩, ht, heq⟩ := Option.map_eq_some_iff.1 h
      obtain ⟨rfl, rfl⟩ := Prod.mk.inj heq
      obtain ⟨rfl, hq⟩ := ih ht
      exact ⟨rfl, fun hm => (List.mem_cons.1 hm).elim (Ne.symm hc) hq⟩

def lexWord : Text → Option (List Part × Text)
  | [] => some ([], [])
  | c :: p =>
    if IsBlank c ∨ IsOpChar c then some ([], c :: p)
    else if c = singleQuote ∨ c = doubleQuote then
      match h : splitAtFirst c p with
      | none => none
      | some (t, r) =>
        have : r.length < p.length := by
          rw [(splitAtFirst_eq h).1, List.length_append, List.length_cons]
          omega
        (lexWord r).map fun (ps, r) => (.quoted c t :: ps, r)
    else if h : c = backslash ∧ p ≠ [] then
      have := List.length_tail (l := p)
      (lexWord p.tail).map fun (ps, r) => (.escape (p.head h.2) :: ps, r)
    else (lexWord p).map fun (ps, r) => (.plain c :: ps, r)
termination_by p => p.length
decreasing_by all_goals (simp only [List.length_cons]; omega)

def nextToken (p : Text) : Option (Option (Token × Text)) :=
  match p.dropWhile fun c => decide (IsBlank c) with
  | [] => some none
  | c :: p =>
    if c = 35 then some none
    else
      match lexOp (c :: p) with
      | some x => some (some x)
      | none => (lexWord (c :: p)).map fun (ps, r) => some (.word ps, r)

def lexFrom : ℕ → Text → Option (List Token)
  | 0, _ => none
  | room + 1, p =>
    match nextToken p with
    | none => none
    | some none => some [.last]
    | some (some (t, r)) => (lexFrom room r).map (t :: ·)

/-- `none` is `-1`. -/
def lex (p : Text) : Option (List Token) := lexFrom (tokensMax - 1) p

/-- `status` and `pid` are what `snprintf` makes of the numbers for `$?` and `$$`. -/
structure Vars where
  status : Text
  pid : Text
  get : Text → Option Text

structure WBuf where
  data : Text := []
  overflow : Bool := false

namespace WBuf

variable (w : WBuf)

def putc (c : UInt8) : WBuf :=
  if w.data.length < lineMax - 1 then { w with data := w.data ++ [c] } else { w with overflow := true }

def puts (s : Text) : WBuf := s.foldl putc w

end WBuf

def isNameChar (c : UInt8) (first : Bool) : Bool :=
  c = 95 ∨ 65 ≤ c ∧ c ≤ 90 ∨ 97 ≤ c ∧ c ≤ 122 ∨ first = false ∧ 48 ≤ c ∧ c ≤ 57

def nameFrom : ℕ → Bool → Text → Text × Text
  | room + 1, first, c :: p =>
    if isNameChar c first then ((c :: (nameFrom room false p).1), (nameFrom room false p).2) else ([], c :: p)
  | _, _, p => ([], p)

/-- What `$...` reads behind the dollar sign: the text that is left, and what it stands for. -/
def expandVar (v : Vars) (p : Text) : Text × Text :=
  match p with
  | 63 :: p => (p, v.status)
  | 36 :: p => (p, v.pid)
  | _ =>
    let braces := p.head? = some 123
    let p' := if braces then p.tail else p
    match nameFrom 63 true p' with
    | ([], _) => (p, [dollar])
    | (name, r) => (if braces ∧ r.head? = some 125 then r.tail else r, (v.get name).getD [])

lemma nameFrom_split (room : ℕ) (first : Bool) (p : Text) :
    p = (nameFrom room first p).1 ++ (nameFrom room first p).2 ∧
      ∀ c ∈ (nameFrom room first p).1, c ≠ singleQuote ∧ c ≠ doubleQuote ∧ c ≠ backslash := by
  induction room generalizing first p with
  | zero => exact ⟨rfl, fun c hc => absurd hc List.not_mem_nil⟩
  | succ room ih =>
    cases p with
    | nil => exact ⟨rfl, fun c hc => absurd hc List.not_mem_nil⟩
    | cons c p =>
      rw [nameFrom]
      split_ifs with hc
      · refine ⟨congrArg (c :: ·) (ih false p).1, fun d hd => ?_⟩
        rcases List.mem_cons.1 hd with rfl | hd
        · refine ⟨?_, ?_, ?_⟩ <;> rintro rfl <;> cases first <;> cases hc
        · exact (ih false p).2 d hd
      · exact ⟨rfl, fun c hc => absurd hc List.not_mem_nil⟩

lemma expandVar_split (v : Vars) (p : Text) : ∃ u, p = u ++ (expandVar v p).1 ∧
    ∀ c ∈ u, c ≠ singleQuote ∧ c ≠ doubleQuote ∧ c ≠ backslash := by
  unfold expandVar
  split
  · exact ⟨[63], rfl, List.forall_mem_singleton.2 (by decide)⟩
  · exact ⟨[36], rfl, List.forall_mem_singleton.2 (by decide)⟩
  dsimp only
  obtain ⟨b, hb, hclean⟩ : ∃ b, p = b ++ (if p.head? = some 123 then p.tail else p) ∧
      ∀ c ∈ b, c ≠ singleQuote ∧ c ≠ doubleQuote ∧ c ≠ backslash := by
    split_ifs with hbrace
    · obtain ⟨q, rfl⟩ : ∃ q, p = 123 :: q := by
        cases p with
        | nil => exact nomatch hbrace
        | cons c q => exact ⟨q, by rw [Option.some.inj hbrace]⟩
      exact ⟨[123], rfl, List.forall_mem_singleton.2 (by decide)⟩
    · exact ⟨[], rfl, fun c hc => absurd hc List.not_mem_nil⟩
  obtain ⟨hname, hchars⟩ := nameFrom_split 63 true (if p.head? = some 123 then p.tail else p)
  split
  · exact ⟨[], rfl, fun c hc => absurd hc List.not_mem_nil⟩
  rename_i name r _ heq
  rw [heq] at hname hchars
  dsimp only at hname hchars ⊢
  have hall : ∀ c ∈ b ++ name, c ≠ singleQuote ∧ c ≠ doubleQuote ∧ c ≠ backslash := fun c hc =>
    (List.mem_append.1 hc).elim (hclean c) (hchars c)
  split_ifs with hclose
  · obtain ⟨q, rfl⟩ : ∃ q, r = 125 :: q := by
      cases r with
      | nil => exact nomatch hclose.2
      | cons c q => exact ⟨q, by rw [Option.some.inj hclose.2]⟩
    refine ⟨b ++ name ++ [125], ?_, fun c hc => ?_⟩
    · exact hb.trans ((congrArg (b ++ ·) hname).trans (by simp))
    · rcases List.mem_append.1 hc with hc | hc
      · exact hall c hc
      · rw [List.mem_singleton.1 hc]
        decide
  · exact ⟨b ++ name, hb.trans ((congrArg (b ++ ·) hname).trans (List.append_assoc _ _ _).symm), hall⟩

lemma expandVar_length {v : Vars} {p : Text} : (expandVar v p).1.length ≤ p.length := by
  obtain ⟨u, hu, -⟩ := expandVar_split v p
  have hlen := congrArg List.length hu
  rw [List.length_append] at hlen
  omega

def Special (c : UInt8) : Prop := c = doubleQuote ∨ c = backslash ∨ c = dollar

instance (c : UInt8) : Decidable (Special c) := inferInstanceAs (Decidable (_ ∨ _))

def quotedFrom (v : Vars) : Text → WBuf → Text × Option Text × WBuf
  | [], w => ([], none, w)
  | [c], w => if c = doubleQuote then ([], some [], w) else ([c], none, w.putc c)
  | c :: d :: p, w =>
    if c = doubleQuote then ([], some (d :: p), w)
    else if c = backslash ∧ Special d then
      let r := quotedFrom v p (w.putc d)
      (c :: d :: r.1, r.2)
    else if c = dollar then
      have := expandVar_length (v := v) (p := d :: p)
      let r := quotedFrom v (expandVar v (d :: p)).1 (w.puts (expandVar v (d :: p)).2)
      (c :: ((d :: p).take ((d :: p).length - (expandVar v (d :: p)).1.length) ++ r.1), r.2)
    else
      let r := quotedFrom v (d :: p) (w.putc c)
      (c :: r.1, r.2)
termination_by p => p.length
decreasing_by all_goals (simp only [List.length_cons] at *; omega)

structure Expansion where
  w : WBuf := {}
  quoted : Bool := false
  glob : Bool := false

lemma expandVar_consumed (v : Vars) (p : Text) :
    p.take (p.length - (expandVar v p).1.length) ++ (expandVar v p).1 = p := by
  obtain ⟨u, hu, -⟩ := expandVar_split v p
  have hlen := congrArg List.length hu
  rw [List.length_append] at hlen
  have htake : p.take (p.length - (expandVar v p).1.length) = u := by
    rw [hlen, Nat.add_sub_cancel]
    exact (congrArg (List.take u.length) hu).trans List.take_left
  rw [htake]
  exact hu.symm

lemma quotedFrom_eq {v : Vars} {p t r : Text} {w w' : WBuf} (h : quotedFrom v p w = (t, some r, w')) :
    p = t ++ doubleQuote :: r := by
  induction hk : p.length using Nat.strong_induction_on generalizing p t w with
  | _ k ih =>
    match p with
    | [] =>
      rw [quotedFrom] at h
      exact nomatch (Prod.mk.inj (Prod.mk.inj h).2).1
    | [c] =>
      rw [quotedFrom] at h
      split_ifs at h with hc
      · cases h
        rw [hc]
        rfl
      · exact nomatch (Prod.mk.inj (Prod.mk.inj h).2).1
    | c :: d :: p =>
      rw [quotedFrom] at h
      subst hk
      split_ifs at h with hc hb hd
      · cases h
        rw [hc]
        rfl
      · obtain ⟨rfl, hr⟩ := Prod.mk.inj h
        have hrest := ih p.length (by simp only [List.length_cons]; omega) (Prod.ext rfl hr) rfl
        exact congrArg (fun l => c :: d :: l) hrest
      · obtain ⟨rfl, hr⟩ := Prod.mk.inj h
        have hlen := expandVar_length (v := v) (p := d :: p)
        have hrest := ih (expandVar v (d :: p)).1.length (by simp only [List.length_cons] at *; omega)
          (Prod.ext rfl hr) rfl
        have hwhole := expandVar_consumed v (d :: p)
        nth_rewrite 2 [hrest] at hwhole
        exact congrArg (c :: ·) (hwhole.symm.trans (List.append_assoc _ _ _).symm)
      · obtain ⟨rfl, hr⟩ := Prod.mk.inj h
        have hrest := ih (d :: p).length (by simp only [List.length_cons]; omega) (Prod.ext rfl hr) rfl
        exact congrArg (c :: ·) hrest

lemma quotedFrom_length {v : Vars} {p t r : Text} {w w' : WBuf} (h : quotedFrom v p w = (t, some r, w')) :
    r.length < p.length := by
  rw [quotedFrom_eq h, List.length_append, List.length_cons]
  omega

def expandFrom (v : Vars) : Text → Expansion → Expansion × List Part
  | [], e => (e, [])
  | c :: p, e =>
    if c = singleQuote then
      match _h : splitAtFirst c p with
      | none => ({ e with w := e.w.puts p, quoted := true }, [.unclosed c p])
      | some (t, r) =>
        let x := expandFrom v r { e with w := e.w.puts t, quoted := true }
        (x.1, .quoted c t :: x.2)
    else if c = doubleQuote then
      match _h : quotedFrom v p e.w with
      | (t, none, w) => ({ e with w, quoted := true }, [.unclosed c t])
      | (t, some r, w) =>
        let x := expandFrom v r { e with w, quoted := true }
        (x.1, .quoted c t :: x.2)
    else if h : c = backslash ∧ p ≠ [] then
      have := List.length_tail (l := p)
      let x := expandFrom v p.tail { e with w := e.w.putc (p.head h.2), quoted := true }
      (x.1, .escape (p.head h.2) :: x.2)
    else if c = dollar then
      have := expandVar_length (v := v) (p := p)
      let x := expandFrom v (expandVar v p).1 { e with w := e.w.puts (expandVar v p).2 }
      (x.1, (c :: p.take (p.length - (expandVar v p).1.length)).map .plain ++ x.2)
    else
      let x := expandFrom v p { e with w := e.w.putc c, glob := e.glob || (c = 42 ∨ c = 63) }
      (x.1, .plain c :: x.2)
termination_by p => p.length
decreasing_by
  · have := congrArg List.length (splitAtFirst_eq _h).1
    simp only [List.length_cons, List.length_append] at *
    omega
  · have := quotedFrom_length _h
    simp only [List.length_cons] at *
    omega
  all_goals (simp only [List.length_cons] at *; omega)

/-- What `expand_word` gives: `none` where the word is gone, whether it is a pattern, and whether it was cut. -/
def expandWord (v : Vars) (raw : Text) : Option Text × Bool × Bool :=
  let e := (expandFrom v raw {}).1
  (if e.w.data = [] ∧ e.quoted = false then none else some e.w.data, e.glob, e.w.overflow)

end MyOS.User.Shell
