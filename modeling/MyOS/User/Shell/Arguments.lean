import MyOS.User.Shell.Quoting

/-! A list of arguments in double quotes, through the lexer of the shell and its word expansion. -/

namespace MyOS.User.Shell

def escaped (a : Text) : Text := a.flatMap fun c => if Special c then [backslash, c] else [c]

def quote (a : Text) : Text := doubleQuote :: (escaped a ++ [doubleQuote])

def commandLine : List Text → Text
  | [] => []
  | [a] => quote a
  | a :: b :: as => quote a ++ 32 :: commandLine (b :: as)

/-- The line is split into words that are expanded to the arguments, and nothing is cut. -/
def Returned (v : Vars) (args : List Text) : Prop := ∃ pss : List (List Part),
  lex (commandLine args) = some (pss.map .word ++ [.last]) ∧
    pss.map (fun ps => expandWord v (rawText ps)) = args.map fun a => (some a, false, false)

section Buffer

variable {v : Vars} {w w' : WBuf} {c : UInt8} {s : Text}

structure WBuf.Le (w w' : WBuf) : Prop where
  data : w.data <+: w'.data
  overflow : w'.overflow = false → w.overflow = false

lemma WBuf.Le.refl : w.Le w := ⟨List.prefix_refl _, id⟩

lemma WBuf.Le.trans {w'' : WBuf} (h : w.Le w') (h' : w'.Le w'') : w.Le w'' :=
  ⟨h.data.trans h'.data, fun ho => h.overflow (h'.overflow ho)⟩

lemma WBuf.le_putc : w.Le (w.putc c) := by
  unfold WBuf.putc
  split_ifs
  · exact ⟨List.prefix_append _ _, id⟩
  · exact ⟨List.prefix_refl _, nofun⟩

lemma WBuf.le_puts : w.Le (w.puts s) := by
  induction s generalizing w with
  | nil => exact .refl
  | cons c s ih => exact le_putc.trans ih

lemma WBuf.putc_data (h : (w.putc c).overflow = false) : (w.putc c).data = w.data ++ [c] := by
  unfold WBuf.putc at h ⊢
  split_ifs at h ⊢
  rfl

lemma WBuf.puts_data (h : (w.puts s).overflow = false) : (w.puts s).data = w.data ++ s := by
  induction s generalizing w with
  | nil => exact (List.append_nil _).symm
  | cons c s ih =>
    have hc : (w.putc c).overflow = false := le_puts.overflow h
    rw [WBuf.puts, List.foldl_cons, ← WBuf.puts, ih h, putc_data hc, List.append_assoc]
    rfl

lemma WBuf.puts_room (h : w.data.length + s.length < lineMax) :
    w.puts s = { w with data := w.data ++ s } := by
  induction s generalizing w with
  | nil => rw [List.append_nil]; rfl
  | cons c s ih =>
    rw [List.length_cons] at h
    have hc : w.putc c = { w with data := w.data ++ [c] } := if_pos (by omega)
    rw [WBuf.puts, List.foldl_cons, ← WBuf.puts, hc, ih (by rw [List.length_append, List.length_singleton]; omega)]
    simp

lemma quotedFrom_le {p : Text} : w.Le (quotedFrom v p w).2.2 := by
  induction hk : p.length using Nat.strong_induction_on generalizing p w with
  | _ k ih =>
    subst hk
    cases p with
    | nil =>
      rw [quotedFrom_nil]
      exact .refl
    | cons c p =>
      by_cases hq : c = doubleQuote
      · rw [hq, quotedFrom_quote]
        exact .refl
      by_cases hd : c = dollar
      · rw [hd, quotedFrom_dollar]
        exact WBuf.le_puts.trans (ih _ (Nat.lt_succ_of_le expandVar_length) rfl)
      by_cases hb : c = backslash ∧ ∃ d ∈ p.head?, Special d
      · obtain ⟨rfl, d, hd', hs⟩ := hb
        obtain ⟨p, rfl⟩ := List.head?_eq_some_iff.1 hd'
        rw [quotedFrom_pair hs]
        exact WBuf.le_putc.trans (ih _ (by simp only [List.length_cons]; omega) rfl)
      · rw [quotedFrom_plain hq hd fun hc d hd' hs => hb ⟨hc, d, hd', hs⟩]
        exact WBuf.le_putc.trans (ih _ (Nat.lt_succ_self _) rfl)

lemma expandFrom_le {p : Text} {e : Expansion} : e.w.Le (expandFrom v p e).1.w := by
  induction hk : p.length using Nat.strong_induction_on generalizing p e with
  | _ k ih =>
    subst hk
    have hrest {q : Text} {e' : Expansion} (hw : e.w.Le e'.w) (hlt : q.length < p.length) :
        e.w.Le (expandFrom v q e').1.w := hw.trans (ih q.length hlt rfl)
    cases p with
    | nil =>
      rw [expandFrom_nil]
      exact .refl
    | cons c p =>
      by_cases hs : c = singleQuote
      · subst hs
        rw [expandFrom, if_pos rfl]
        split
        · exact WBuf.le_puts
        · rename_i t r hr
          apply hrest WBuf.le_puts
          rw [(splitAtFirst_eq hr).1]
          simp only [List.length_cons, List.length_append]
          omega
      by_cases hq : c = doubleQuote
      · subst hq
        have hle := quotedFrom_le (v := v) (w := e.w) (p := p)
        rcases hr : quotedFrom v p e.w with ⟨t, ro, w'⟩
        rw [hr] at hle
        cases ro with
        | none =>
          rw [expandFrom_unclosed hr]
          exact hle
        | some r =>
          rw [expandFrom_double hr]
          exact hrest hle (Nat.lt_succ_of_lt (quotedFrom_length hr))
      by_cases hb : c = backslash ∧ p ≠ []
      · obtain ⟨rfl, hne⟩ := hb
        obtain ⟨d, p, rfl⟩ := List.exists_cons_of_ne_nil hne
        rw [expandFrom_escape]
        apply hrest WBuf.le_putc
        simp only [List.length_cons]
        omega
      by_cases hd : c = dollar
      · rw [hd, expandFrom_dollar]
        exact hrest WBuf.le_puts (Nat.lt_succ_of_le expandVar_length)
      · rw [expandFrom_plain hs hq hd fun hc => by_contra fun hne => hb ⟨hc, hne⟩]
        exact hrest WBuf.le_putc (Nat.lt_succ_self _)

end Buffer

section Escaped

variable {v : Vars} {w : WBuf} {c : UInt8} {a p r x y z : Text} {ps : List Part} {room : ℕ}

lemma escaped_cons : escaped (c :: a) = (if Special c then [backslash, c] else [c]) ++ escaped a := rfl

lemma escaped_special (h : Special c) : escaped (c :: a) = backslash :: c :: escaped a := by
  rw [escaped_cons, if_pos h]
  rfl

lemma escaped_other (h : ¬ Special c) : escaped (c :: a) = c :: escaped a := by
  rw [escaped_cons, if_neg h]
  rfl

lemma mem_escaped (h : c ∈ a) : c ∈ escaped a := by
  refine List.mem_flatMap.2 ⟨c, h, ?_⟩
  split_ifs
  · exact List.mem_cons_of_mem _ List.mem_cons_self
  · exact List.mem_singleton_self c

lemma mem_of_mem_escaped (h : c ∈ escaped a) (hc : c ≠ backslash) : c ∈ a := by
  obtain ⟨d, hd, hm⟩ := List.mem_flatMap.1 h
  split_ifs at hm
  · rcases List.mem_cons.1 hm with rfl | hm
    · exact absurd rfl hc
    · rwa [List.mem_singleton.1 hm]
  · rwa [List.mem_singleton.1 hm]

lemma quotedFrom_escaped : quotedFrom v (escaped a ++ p) w =
    (escaped a ++ (quotedFrom v p (w.puts a)).1, (quotedFrom v p (w.puts a)).2) := by
  induction a generalizing w with
  | nil => rfl
  | cons c a ih =>
    by_cases hs : Special c
    · rw [escaped_special hs, List.cons_append, List.cons_append, quotedFrom_pair hs, ih]
      rfl
    · have hne := not_or.1 hs
      rw [escaped_other hs, List.cons_append, quotedFrom_plain hne.1 (fun h => hne.2 (.inr h))
        fun h => absurd (.inl h) hne.2, ih]
      rfl

lemma escaped_split (h : escaped a = y ++ c :: z) (hc : c ≠ backslash) : ∃ a₁ a₂, a = a₁ ++ c :: a₂ ∧
    y = escaped a₁ ++ (if Special c then [backslash] else []) ∧ z = escaped a₂ := by
  induction a generalizing y with
  | nil => exact absurd h.symm (List.append_ne_nil_of_right_ne_nil y (List.cons_ne_nil c z))
  | cons d a ih =>
    by_cases hs : Special d
    · rw [escaped_special hs] at h
      match y with
      | [] => exact absurd (List.cons.inj h).1.symm hc
      | [e] =>
        have hlast := List.cons.inj (List.cons.inj h).2
        obtain rfl := hlast.1
        refine ⟨[], a, rfl, ?_, hlast.2.symm⟩
        rw [if_pos hs, ← (List.cons.inj h).1]
        rfl
      | e :: f :: y =>
        have htail := (List.cons.inj h).2
        obtain ⟨a₁, a₂, rfl, rfl, hz⟩ := ih (List.cons.inj htail).2
        refine ⟨d :: a₁, a₂, rfl, ?_, hz⟩
        rw [escaped_special hs, ← (List.cons.inj h).1, ← (List.cons.inj htail).1]
        rfl
    · rw [escaped_other hs] at h
      match y with
      | [] =>
        obtain rfl := (List.cons.inj h).1
        exact ⟨[], a, rfl, (if_neg hs).symm, (List.cons.inj h).2.symm⟩
      | e :: y =>
        obtain ⟨a₁, a₂, rfl, rfl, hz⟩ := ih (List.cons.inj h).2
        refine ⟨d :: a₁, a₂, rfl, ?_, hz⟩
        rw [escaped_other hs, ← (List.cons.inj h).1]
        rfl

lemma append_quote (h : x ++ c :: z = escaped a ++ [doubleQuote]) :
    x = escaped a ∧ c = doubleQuote ∨ ∃ y, escaped a = x ++ c :: y ∧ z = y ++ [doubleQuote] := by
  rcases List.append_eq_append_iff.1 h with ⟨y, hy, hz⟩ | ⟨y, hy, hz⟩
  · cases y with
    | nil =>
      rw [List.append_nil] at hy
      exact .inl ⟨hy.symm, (List.cons.inj hz).1⟩
    | cons d y =>
      obtain rfl := (List.cons.inj hz).1
      exact .inr ⟨y, hy, (List.cons.inj hz).2⟩
  · cases y with
    | nil =>
      rw [List.append_nil] at hy
      exact .inl ⟨hy, (List.cons.inj hz).1.symm⟩
    | cons d y => exact absurd (List.cons.inj hz).2.symm (List.append_ne_nil_of_right_ne_nil y (List.cons_ne_nil c z))

lemma Lexed.ne_escaped (h : Lexed ps) : rawText ps ≠ escaped a ++ [doubleQuote] := by
  induction h generalizing a with
  | nil => exact (List.append_ne_nil_of_right_ne_nil _ (List.cons_ne_nil _ _)).symm
  | @plain c ps hs hq hb h ih =>
    intro heq
    cases a with
    | nil => exact hq (List.cons.inj heq).1
    | cons d a =>
      by_cases hd : Special d
      · rw [escaped_special hd] at heq
        rw [hb (List.cons.inj heq).1] at heq
        exact nomatch (List.cons.inj heq).2
      · rw [escaped_other hd] at heq
        exact ih (List.cons.inj heq).2
  | @escape c ps h ih =>
    intro heq
    cases a with
    | nil => exact absurd (List.cons.inj heq).1 (by decide)
    | cons d a =>
      by_cases hd : Special d
      · rw [escaped_special hd] at heq
        exact ih (List.cons.inj (List.cons.inj heq).2).2
      · rw [escaped_other hd] at heq
        exact hd (.inr (.inl (List.cons.inj heq).1.symm))
  | @quoted q t ps hq ht h ih =>
    intro heq
    rw [rawText_cons, Part.text, List.cons_append, List.append_assoc] at heq
    cases a with
    | nil => exact absurd (List.cons.inj heq).2 (List.append_ne_nil_of_right_ne_nil t (List.cons_ne_nil q _))
    | cons d a =>
      by_cases hd : Special d
      · rw [escaped_special hd] at heq
        rcases hq with rfl | rfl <;> exact absurd (List.cons.inj heq).1 (by decide)
      · rw [escaped_other hd] at heq
        obtain rfl := (List.cons.inj heq).1
        obtain ⟨-, hq'⟩ | ⟨y, hy, hps⟩ := append_quote (List.cons.inj heq).2
        · exact hd (.inl hq')
        · obtain ⟨a₁, a₂, -, -, rfl⟩ := escaped_split hy fun hb => hd (.inr (.inl hb))
          exact ih hps

lemma Lexed.quote_notMem (h : Lexed ps) (heq : rawText ps = quote a) : doubleQuote ∉ a := by
  cases h with
  | nil => exact nomatch heq
  | plain _ hq _ _ => exact absurd (List.cons.inj heq).1 hq
  | escape _ _ => exact absurd (List.cons.inj heq).1 (by decide)
  | @quoted q t ps _ ht h =>
    rw [rawText_cons, Part.text, List.cons_append, List.append_assoc] at heq
    obtain rfl := (List.cons.inj heq).1
    obtain ⟨rfl, -⟩ | ⟨y, hy, hps⟩ := append_quote (List.cons.inj heq).2
    · exact fun hm => ht (mem_escaped hm)
    · obtain ⟨-, a₂, -, -, rfl⟩ := escaped_split hy (by decide)
      exact absurd hps h.ne_escaped

lemma expandWord_quote (hl : Lexed ps) (heq : rawText ps ++ r = quote a ++ p)
    (hr : ∀ c ∈ r.head?, IsBlank c ∨ IsOpChar c) (hp : p = [] ∨ ∃ q, p = 32 :: q)
    {g : Bool} (hx : expandWord v (rawText ps) = (some a, g, false)) : doubleQuote ∉ a := by
  rw [quote, List.cons_append] at heq
  rcases hb : rawText ps with _ | ⟨c, b⟩
  · rw [hb, expandWord, expandFrom_nil] at hx
    exact nomatch (Prod.mk.inj hx).1
  rw [hb] at heq hx
  obtain rfl := (List.cons.inj heq).1
  have hov : (expandFrom v (doubleQuote :: b) {}).1.w.overflow = false := (Prod.mk.inj (Prod.mk.inj hx).2).2
  have hdata : (expandFrom v (doubleQuote :: b) {}).1.w.data = a := by
    have hword := (Prod.mk.inj hx).1
    split_ifs at hword
    exact Option.some.inj hword
  rcases List.append_eq_append_iff.1 (List.cons.inj heq).2 with ⟨x, hx, hrest⟩ | ⟨x, hx, hrest⟩
  · cases x with
    | nil =>
      rw [List.append_nil] at hx
      exact hl.quote_notMem (hb.trans (congrArg (doubleQuote :: ·) hx.symm))
    | cons c x =>
      -- the token ends before the closing quote, at a byte that is not escaped
      rw [hrest] at hr
      have hc : c ≠ backslash ∧ c ≠ doubleQuote := by
        constructor <;> rintro rfl <;> exact absurd (hr _ rfl) (by decide)
      obtain ⟨-, hcq⟩ | ⟨y, hy, -⟩ := append_quote hx.symm
      · exact absurd hcq hc.2
      · obtain ⟨a₁, a₂, rfl, rfl, -⟩ := escaped_split hy hc.1
        have hns : ¬ Special c := fun hs => (hs.resolve_left hc.2).elim hc.1 fun hd => by
          rw [hd] at hr
          exact absurd (hr _ rfl) (by decide)
        rw [if_neg hns, List.append_nil, ← List.append_nil (escaped a₁)] at hdata hov
        have hq := quotedFrom_escaped (v := v) (a := a₁) (p := []) (w := {})
        rw [quotedFrom_nil] at hq
        rw [expandFrom_unclosed hq] at hdata hov
        have hlen := congrArg List.length ((WBuf.puts_data hov).symm.trans hdata)
        simp only [List.length_append, List.length_cons, List.length_nil] at hlen
        omega
  · cases x with
    | nil =>
      rw [List.append_nil] at hx
      exact hl.quote_notMem (hb.trans (congrArg (doubleQuote :: ·) hx))
    | cons c x =>
      -- the token goes on with the blank behind the closing quote
      obtain rfl : c = 32 := by
        obtain rfl | ⟨q, rfl⟩ := hp
        · exact nomatch hrest
        · exact (List.cons.inj hrest).1.symm
      have hq := quotedFrom_escaped (v := v) (a := a) (p := doubleQuote :: 32 :: x) (w := {})
      rw [quotedFrom_quote] at hq
      rw [hx, List.append_assoc, List.singleton_append, expandFrom_double hq,
        expandFrom_plain (by decide) (by decide) (by decide) fun h => absurd h (by decide)] at hdata hov
      have hputc : ((({} : WBuf).puts a).putc 32).overflow = false := expandFrom_le.overflow hov
      have hle : ((({} : WBuf).puts a).putc 32).data.length ≤ a.length :=
        expandFrom_le.data.length_le.trans_eq (congrArg List.length hdata)
      have hlen := congrArg List.length (WBuf.putc_data hputc)
      rw [WBuf.puts_data (WBuf.le_putc.overflow hputc)] at hlen
      simp only [List.length_append, List.length_cons, List.length_nil] at hlen
      omega

end Escaped

section Line

variable {v : Vars} {a p : Text} {args : List Text} {room : ℕ}

lemma lexWord_quote (h : doubleQuote ∉ a) (hp : p = [] ∨ ∃ q, p = 32 :: q) :
    lexWord (quote a ++ p) = some ([.quoted doubleQuote (escaped a)], p) := by
  have htail : lexWord p = some ([], p) := by
    obtain rfl | ⟨q, rfl⟩ := hp
    · rw [lexWord]
    · rw [lexWord, if_pos (by decide)]
  have hsplit : splitAtFirst doubleQuote (escaped a ++ [doubleQuote] ++ p) = some (escaped a, p) := by
    rw [List.append_assoc]
    exact splitAtFirst_append fun hm => h (mem_of_mem_escaped hm (by decide))
  rw [quote, List.cons_append, lexWord, if_neg (by decide), if_pos (by decide)]
  split
  · rename_i hs
    cases hs.symm.trans hsplit
  · rename_i hs
    cases hs.symm.trans hsplit
    rw [htail]
    rfl

lemma nextToken_quote : nextToken (quote a ++ p) =
    (lexWord (quote a ++ p)).map fun (ps, r) => some (.word ps, r) := rfl

lemma lexFrom_blank : lexFrom room (32 :: p) = lexFrom room p := by
  cases room <;> rfl

lemma commandLine_cons (a : Text) (args : List Text) : ∃ p, commandLine (a :: args) = quote a ++ p ∧
    (p = [] ∨ ∃ q, p = 32 :: q) ∧
    ∀ room, lexFrom room p = lexFrom room (commandLine args) := by
  cases args with
  | nil => exact ⟨[], (List.append_nil _).symm, .inl rfl, fun _ => rfl⟩
  | cons b args => exact ⟨32 :: commandLine (b :: args), rfl, .inr ⟨_, rfl⟩, fun _ => lexFrom_blank⟩

lemma expandWord_quoted (hlen : a.length < lineMax) :
    expandWord v (rawText [.quoted doubleQuote (escaped a)]) = (some a, false, false) := by
  have hraw : rawText [.quoted doubleQuote (escaped a)] = doubleQuote :: (escaped a ++ [doubleQuote]) :=
    List.append_nil _
  have hq := quotedFrom_escaped (v := v) (a := a) (p := [doubleQuote]) (w := {})
  rw [quotedFrom_quote, WBuf.puts_room (by simpa using hlen)] at hq
  rw [hraw, expandWord, expandFrom_double hq, expandFrom_nil]
  simp

lemma lexFrom_commandLine (hlen : ∀ a ∈ args, a.length < lineMax) : (∃ pss : List (List Part),
    lexFrom room (commandLine args) = some (pss.map .word ++ [.last]) ∧
      pss.map (fun ps => expandWord v (rawText ps)) = args.map fun a => (some a, false, false)) ↔
    (∀ a ∈ args, doubleQuote ∉ a) ∧ args.length < room := by
  induction args generalizing room with
  | nil =>
    cases room with
    | zero =>
      refine iff_of_false ?_ fun h => absurd h.2 (lt_irrefl 0)
      rintro ⟨_, ⟨⟩, _⟩
    | succ room => exact iff_of_true ⟨[], rfl, rfl⟩ ⟨List.forall_mem_nil _, Nat.succ_pos room⟩
  | cons a args ih =>
    cases room with
    | zero =>
      refine iff_of_false ?_ fun h => absurd h.2 (Nat.not_lt_zero _)
      rintro ⟨_, ⟨⟩, _⟩
    | succ room =>
      obtain ⟨p, hline, hp, hrest⟩ := commandLine_cons a args
      specialize @ih room fun b hb => hlen b (List.mem_cons_of_mem a hb)
      rw [hline, lexFrom, nextToken_quote]
      by_cases hq : doubleQuote ∈ a
      · refine iff_of_false ?_ fun h => h.1 a List.mem_cons_self hq
        rintro ⟨pss, hlex, hwords⟩
        rcases hw : lexWord (quote a ++ p) with _ | ⟨ps, r⟩
        · rw [hw] at hlex
          cases hlex
        rw [hw] at hlex
        obtain ⟨toks, -, htoks⟩ := Option.map_eq_some_iff.1 hlex
        cases pss with
        | nil => cases hwords
        | cons ps' pss =>
          obtain rfl := Token.word.inj (List.cons.inj htoks).1
          obtain ⟨hl, heq, hr⟩ := lexWord_lexed hw
          exact expandWord_quote hl heq.symm hr hp (List.cons.inj hwords).1 hq
      · rw [lexWord_quote hq hp]
        simp only [Option.map_some, hrest]
        have ha := hlen a List.mem_cons_self
        constructor
        · rintro ⟨pss, hlex, hwords⟩
          obtain ⟨toks, hts, htoks⟩ := Option.map_eq_some_iff.1 hlex
          cases pss with
          | nil => cases hwords
          | cons ps' pss =>
            obtain rfl := (List.cons.inj htoks).2
            obtain ⟨hno, hroom⟩ := ih.1 ⟨pss, hts, (List.cons.inj hwords).2⟩
            exact ⟨List.forall_mem_cons.2 ⟨hq, hno⟩, Nat.succ_lt_succ hroom⟩
        · rintro ⟨hno, hroom⟩
          obtain ⟨pss, hlex, hwords⟩ :=
            ih.2 ⟨fun b hb => hno b (List.mem_cons_of_mem a hb), Nat.lt_of_succ_lt_succ hroom⟩
          refine ⟨[.quoted doubleQuote (escaped a)] :: pss, ?_, ?_⟩
          · rw [hlex]
            rfl
          · rw [List.map_cons, List.map_cons, expandWord_quoted ha, hwords]

end Line

theorem lex_expandWord (v : Vars) :
    (∀ line toks, lex line = some toks → ∀ ps, .word ps ∈ toks →
      (SameQuoting v ps ↔ ∀ t, .quoted doubleQuote t ∈ ps → ¬ OddTail t)) ∧
    ∀ args : List Text, (∀ a ∈ args, a.length < lineMax) →
      (Returned v args ↔ (∀ a ∈ args, doubleQuote ∉ a) ∧ args.length ≤ 126) :=
  ⟨fun _ _ hlex _ hps => expandFrom_parts (lexed_of_mem hlex hps) {},
    fun _ hlen => (lexFrom_commandLine hlen).trans (and_congr_right' Nat.lt_succ_iff)⟩

theorem lex_expandWord_quote : ∃ v, (∃ line toks ps, lex line = some toks ∧ .word ps ∈ toks ∧ ¬ SameQuoting v ps) ∧
    ¬ Returned v [[97, doubleQuote, 98]] := by
  refine ⟨⟨[63], [63], fun _ => none⟩, ⟨[doubleQuote, backslash, doubleQuote],
    [.word [.quoted doubleQuote [backslash]], .last], _, ?_, List.mem_cons_self, fun hsame => ?_⟩, ?_⟩
  · have hword : lexWord [doubleQuote, backslash, doubleQuote] = some ([.quoted doubleQuote [backslash]], []) := by
      simp [lexWord, splitAtFirst, IsBlank, IsOpChar, doubleQuote, backslash, singleQuote]
    have hnext : nextToken [doubleQuote, backslash, doubleQuote] =
        (lexWord [doubleQuote, backslash, doubleQuote]).map fun (ps, r) => some (.word ps, r) := rfl
    rw [lex, tokensMax, lexFrom, hnext, hword]
    rfl
  · have hlexed : Lexed [.quoted doubleQuote [backslash]] := .quoted (.inr rfl) (by decide) .nil
    exact (expandFrom_parts hlexed {}).1 hsame [backslash] List.mem_cons_self (by decide)
  · intro h
    exact ((lexFrom_commandLine (by decide)).1 h).1 _ List.mem_cons_self (by decide)

end MyOS.User.Shell
