import MyOS.User.Shell.Lex

/-! Where the lexer of the shell and its word expansion see the same quotes. -/

namespace MyOS.User.Shell

section OddTail

variable {c d : UInt8} {t u : Text}

def OddTail (t : Text) : Prop := (t.reverse.takeWhile fun c => decide (c = backslash)).length % 2 = 1

instance (t : Text) : Decidable (OddTail t) := inferInstanceAs (Decidable (_ = _))

lemma tail_cons : ((c :: t).reverse.takeWhile fun c => decide (c = backslash)).length =
    if (t.reverse.takeWhile fun c => decide (c = backslash)).length = t.length then
      t.length + if c = backslash then 1 else 0
    else (t.reverse.takeWhile fun c => decide (c = backslash)).length := by
  rw [List.reverse_cons, List.takeWhile_append, List.length_reverse]
  split_ifs with hall hc
  · simp [hc]
  · simp [hc]
  · rfl

lemma oddTail_nil : ¬ OddTail [] := by decide

lemma oddTail_cons (h : c ≠ backslash) : OddTail (c :: t) ↔ OddTail t := by
  unfold OddTail
  rw [tail_cons, if_neg h, Nat.add_zero]
  split_ifs with hall
  · rw [hall]
  · rfl

lemma oddTail_pair : OddTail (backslash :: backslash :: t) ↔ OddTail t := by
  unfold OddTail
  rw [tail_cons, tail_cons, if_pos rfl, List.length_cons]
  have hle : (t.reverse.takeWhile fun c => decide (c = backslash)).length ≤ t.length :=
    (List.takeWhile_sublist _).length_le.trans_eq List.length_reverse
  split_ifs <;> omega

lemma oddTail_lone (h : d ≠ backslash) : OddTail (backslash :: d :: t) ↔ OddTail (d :: t) := by
  unfold OddTail
  rw [tail_cons, tail_cons, if_neg h, List.length_cons]
  have hle : (t.reverse.takeWhile fun c => decide (c = backslash)).length ≤ t.length :=
    (List.takeWhile_sublist _).length_le.trans_eq List.length_reverse
  split_ifs <;> omega

lemma oddTail_append (h : ∀ c ∈ u, c ≠ backslash) : OddTail (u ++ t) ↔ OddTail t := by
  induction u with
  | nil => rfl
  | cons c u ih =>
    rw [List.cons_append, oddTail_cons (h c List.mem_cons_self), ih fun d hd => h d (List.mem_cons_of_mem c hd)]

end OddTail

section Quoted

variable {v : Vars} {c : UInt8} {t r : Text} {w : WBuf}

lemma quotedFrom_nil : quotedFrom v [] w = ([], none, w) := by
  rw [quotedFrom]

lemma quotedFrom_quote : quotedFrom v (doubleQuote :: r) w = ([], some r, w) := by
  cases r with
  | nil | cons d r => rw [quotedFrom, if_pos rfl]

lemma quotedFrom_pair (h : Special c) : quotedFrom v (backslash :: c :: t) w =
    (backslash :: c :: (quotedFrom v t (w.putc c)).1, (quotedFrom v t (w.putc c)).2) := by
  rw [quotedFrom, if_neg (by decide), if_pos ⟨rfl, h⟩]

lemma quotedFrom_dollar : quotedFrom v (dollar :: t) w =
    (dollar :: (t.take (t.length - (expandVar v t).1.length) ++
      (quotedFrom v (expandVar v t).1 (w.puts (expandVar v t).2)).1),
        (quotedFrom v (expandVar v t).1 (w.puts (expandVar v t).2)).2) := by
  cases t with
  | nil =>
    have hx : expandVar v [] = ([], [dollar]) := rfl
    rw [quotedFrom, if_neg (by decide), hx, quotedFrom_nil]
    rfl
  | cons d t => rw [quotedFrom, if_neg (by decide), if_neg fun h => absurd h.1 (by decide), if_pos rfl]

lemma quotedFrom_plain (hq : c ≠ doubleQuote) (hd : c ≠ dollar) (hb : c = backslash → ∀ d ∈ t.head?, ¬ Special d) :
    quotedFrom v (c :: t) w = (c :: (quotedFrom v t (w.putc c)).1, (quotedFrom v t (w.putc c)).2) := by
  cases t with
  | nil => rw [quotedFrom_nil, quotedFrom, if_neg hq]
  | cons d t => rw [quotedFrom, if_neg hq, if_neg fun h => hb h.1 d rfl h.2, if_neg hd]

lemma expandVar_quote (h : doubleQuote ∉ t) : ∃ u t', t = u ++ t' ∧ (∀ c ∈ u, c ≠ backslash) ∧
    (expandVar v (t ++ doubleQuote :: r)).1 = t' ++ doubleQuote :: r := by
  obtain ⟨u, hu, hclean⟩ := expandVar_split v (t ++ doubleQuote :: r)
  have hbs : ∀ c ∈ u, c ≠ backslash := fun c hc => (hclean c hc).2.2
  rcases List.append_eq_append_iff.1 hu with ⟨x, rfl, hx⟩ | ⟨x, rfl, hx⟩
  · cases x with
    | nil => exact ⟨t, [], (List.append_nil t).symm, by simpa using hbs, hx.symm⟩
    | cons d x =>
      obtain ⟨rfl, -⟩ := List.cons.inj hx
      exact absurd rfl (hclean doubleQuote (List.mem_append_right t List.mem_cons_self)).2.1
  · exact ⟨u, x, rfl, hbs, hx⟩

/-- The double quote behind `t` closes for `expand_word` as well, unless a backslash hides it. -/
def Inside (v : Vars) (r t : Text) (w : WBuf) : Prop :=
  if OddTail t then ∃ x, (quotedFrom v (t ++ doubleQuote :: r) w).1 = t ++ doubleQuote :: x
  else ∃ w', quotedFrom v (t ++ doubleQuote :: r) w = (t, some r, w')

lemma Inside.step {s : Text} {w₁ : WBuf} (ih : Inside v r t w₁) (hodd : OddTail (s ++ t) ↔ OddTail t)
    (hq : quotedFrom v (s ++ t ++ doubleQuote :: r) w =
      (s ++ (quotedFrom v (t ++ doubleQuote :: r) w₁).1, (quotedFrom v (t ++ doubleQuote :: r) w₁).2)) :
    Inside v r (s ++ t) w := by
  unfold Inside at ih ⊢
  rw [hq]
  by_cases ho : OddTail t
  · rw [if_pos ho] at ih
    rw [if_pos (hodd.2 ho)]
    obtain ⟨x, hx⟩ := ih
    exact ⟨x, by rw [hx, List.append_assoc]⟩
  · rw [if_neg ho] at ih
    rw [if_neg fun hc => ho (hodd.1 hc)]
    obtain ⟨w', hw⟩ := ih
    exact ⟨w', by rw [hw]⟩

lemma quotedFrom_inside (h : doubleQuote ∉ t) : Inside v r t w := by
  induction hk : t.length using Nat.strong_induction_on generalizing t w with
  | _ k ih =>
    subst hk
    match t with
    | [] =>
      rw [Inside, if_neg oddTail_nil]
      exact ⟨w, by rw [List.nil_append, quotedFrom_quote]⟩
    | c :: t =>
      rw [List.mem_cons, not_or] at h
      obtain ⟨hc, ht⟩ := h
      by_cases hd : c = dollar
      · subst hd
        obtain ⟨u, t', rfl, hu, hx⟩ := expandVar_quote (v := v) (r := r) ht
        have hrest : Inside v r t' (w.puts (expandVar v (u ++ t' ++ doubleQuote :: r)).2) := by
          refine ih t'.length (by simp only [List.length_cons, List.length_append]; omega) (fun hm => ht ?_) rfl
          exact List.mem_append_right u hm
        refine hrest.step (s := dollar :: u) ?_ ?_
        · rw [List.cons_append, oddTail_cons (by decide), oddTail_append hu]
        · have hconsumed := expandVar_consumed v (u ++ t' ++ doubleQuote :: r)
          rw [hx, ← List.append_assoc] at hconsumed
          have htake := List.append_cancel_right (List.append_cancel_right hconsumed)
          rw [List.cons_append, List.cons_append, quotedFrom_dollar, hx, htake]
          rfl
      have hplain (hb : c = backslash → ∀ d ∈ (t ++ doubleQuote :: r).head?, ¬ Special d)
          (hodd : OddTail ([c] ++ t) ↔ OddTail t) : Inside v r (c :: t) w := by
        have hrest : Inside v r t (w.putc c) := ih t.length (by simp only [List.length_cons]; omega) ht rfl
        exact hrest.step (s := [c]) hodd (quotedFrom_plain (Ne.symm hc) hd hb)
      by_cases hb : c = backslash
      · subst hb
        cases t with
        | nil =>
          rw [Inside, if_pos (by decide), List.singleton_append, quotedFrom_pair (.inl rfl)]
          exact ⟨_, rfl⟩
        | cons d t =>
          rw [List.mem_cons, not_or] at ht
          by_cases hs : Special d
          · have hrest : Inside v r t (w.putc d) := ih t.length (by simp only [List.length_cons]; omega) ht.2 rfl
            refine hrest.step (s := [backslash, d]) ?_ (quotedFrom_pair hs)
            rcases hs with rfl | rfl | rfl
            · exact absurd rfl ht.1
            · exact oddTail_pair
            · exact (oddTail_lone (by decide)).trans (oddTail_cons (by decide))
          · refine hplain (fun _ e he => ?_) (oddTail_lone fun hd' => hs (.inr (.inl hd')))
            rwa [← Option.some.inj he]
      · exact hplain (fun h => absurd h hb) (oddTail_cons hb)

end Quoted

section Expand

variable {v : Vars} {c : UInt8} {t r p : Text} {e : Expansion} {w : WBuf}

lemma splitAtFirst_append {q : UInt8} (h : q ∉ t) : splitAtFirst q (t ++ q :: r) = some (t, r) := by
  induction t with
  | nil => exact if_pos rfl
  | cons c t ih =>
    rw [List.mem_cons, not_or] at h
    rw [List.cons_append, splitAtFirst, if_neg (Ne.symm h.1), ih h.2]
    rfl

lemma expandFrom_nil : expandFrom v [] e = (e, []) := by
  rw [expandFrom]

lemma expandFrom_single (h : singleQuote ∉ t) : expandFrom v (singleQuote :: (t ++ singleQuote :: r)) e =
    ((expandFrom v r { e with w := e.w.puts t, quoted := true }).1,
      .quoted singleQuote t :: (expandFrom v r { e with w := e.w.puts t, quoted := true }).2) := by
  rw [expandFrom, if_pos rfl]
  split
  · rename_i hs
    cases hs.symm.trans (splitAtFirst_append h)
  · rename_i hs
    cases hs.symm.trans (splitAtFirst_append h)
    rfl

lemma expandFrom_double (h : quotedFrom v p e.w = (t, some r, w)) : expandFrom v (doubleQuote :: p) e =
    ((expandFrom v r { e with w, quoted := true }).1,
      .quoted doubleQuote t :: (expandFrom v r { e with w, quoted := true }).2) := by
  rw [expandFrom, if_neg (by decide), if_pos rfl]
  split
  · rename_i hs
    cases (Prod.mk.inj (Prod.mk.inj (hs.symm.trans h)).2).1
  · rename_i hs
    obtain ⟨rfl, hr⟩ := Prod.mk.inj (hs.symm.trans h)
    obtain ⟨hsome, rfl⟩ := Prod.mk.inj hr
    cases hsome
    rfl

lemma expandFrom_unclosed (h : quotedFrom v p e.w = (t, none, w)) : expandFrom v (doubleQuote :: p) e =
    ({ e with w, quoted := true }, [.unclosed doubleQuote t]) := by
  rw [expandFrom, if_neg (by decide), if_pos rfl]
  split
  · rename_i hs
    obtain ⟨rfl, hr⟩ := Prod.mk.inj (hs.symm.trans h)
    rw [(Prod.mk.inj hr).2]
  · rename_i hs
    cases (Prod.mk.inj (Prod.mk.inj (hs.symm.trans h)).2).1

lemma expandFrom_escape : expandFrom v (backslash :: c :: p) e =
    ((expandFrom v p { e with w := e.w.putc c, quoted := true }).1,
      .escape c :: (expandFrom v p { e with w := e.w.putc c, quoted := true }).2) := by
  rw [expandFrom, if_neg (by decide), if_neg (by decide), dif_pos ⟨rfl, List.cons_ne_nil c p⟩]
  rfl

lemma expandFrom_dollar : expandFrom v (dollar :: p) e =
    ((expandFrom v (expandVar v p).1 { e with w := e.w.puts (expandVar v p).2 }).1,
      (dollar :: p.take (p.length - (expandVar v p).1.length)).map .plain ++
        (expandFrom v (expandVar v p).1 { e with w := e.w.puts (expandVar v p).2 }).2) := by
  rw [expandFrom, if_neg (by decide), if_neg (by decide), dif_neg fun h => absurd h.1 (by decide), if_pos rfl]

lemma expandFrom_plain (hs : c ≠ singleQuote) (hq : c ≠ doubleQuote) (hd : c ≠ dollar)
    (hb : c = backslash → p = []) : expandFrom v (c :: p) e =
      ((expandFrom v p { e with w := e.w.putc c, glob := e.glob || (c = 42 ∨ c = 63) }).1,
        .plain c :: (expandFrom v p { e with w := e.w.putc c, glob := e.glob || (c = 42 ∨ c = 63) }).2) := by
  rw [expandFrom, if_neg hs, if_neg hq, dif_neg fun h => h.2 (hb h.1), if_neg hd]

end Expand

inductive Lexed : List Part → Prop
  | nil : Lexed []
  | plain {c : UInt8} {ps : List Part} (hs : c ≠ singleQuote) (hq : c ≠ doubleQuote) (hb : c = backslash → ps = [])
      (h : Lexed ps) : Lexed (.plain c :: ps)
  | escape (c : UInt8) {ps : List Part} (h : Lexed ps) : Lexed (.escape c :: ps)
  | quoted {q : UInt8} {t : Text} {ps : List Part} (hq : q = singleQuote ∨ q = doubleQuote) (ht : q ∉ t)
      (h : Lexed ps) : Lexed (.quoted q t :: ps)

section Lexed

variable {v : Vars} {c : UInt8} {p r u : Text} {ps qs : List Part} {toks : List Token} {room : ℕ}

lemma rawText_cons {x : Part} : rawText (x :: ps) = x.text ++ rawText ps := rfl

lemma rawText_plain : rawText (u.map .plain) = u := by
  induction u with
  | nil => rfl
  | cons c u ih =>
    rw [List.map_cons, rawText_cons, ih]
    rfl

lemma rawText_append : rawText (ps ++ qs) = rawText ps ++ rawText qs := List.flatMap_append

lemma lexWord_lexed (h : lexWord p = some (ps, r)) : Lexed ps ∧ p = rawText ps ++ r ∧
    ∀ c ∈ r.head?, IsBlank c ∨ IsOpChar c := by
  induction hk : p.length using Nat.strong_induction_on generalizing p ps with
  | _ k ih =>
    subst hk
    cases p with
    | nil =>
      rw [lexWord] at h
      cases h
      exact ⟨.nil, rfl, by rintro _ ⟨⟩⟩
    | cons c p =>
      rw [lexWord] at h
      by_cases hstop : IsBlank c ∨ IsOpChar c
      · rw [if_pos hstop] at h
        cases h
        exact ⟨.nil, rfl, fun d hd => Option.some.inj hd ▸ hstop⟩
      rw [if_neg hstop] at h
      by_cases hq : c = singleQuote ∨ c = doubleQuote
      · rw [if_pos hq] at h
        split at h
        · cases h
        · rename_i t r' hs
          obtain ⟨⟨qs, r''⟩, hrest, heq⟩ := Option.map_eq_some_iff.1 h
          cases heq
          obtain ⟨rfl, ht⟩ := splitAtFirst_eq hs
          have hlt : r'.length < (c :: (t ++ c :: r')).length := by
            simp only [List.length_cons, List.length_append]
            omega
          obtain ⟨hl, hp, hr⟩ := ih _ hlt hrest rfl
          refine ⟨.quoted hq ht hl, ?_, hr⟩
          rw [rawText_cons, Part.text, hp]
          simp
      rw [if_neg hq] at h
      rw [not_or] at hq
      by_cases hb : c = backslash ∧ p ≠ []
      · rw [dif_pos hb] at h
        obtain ⟨rfl, hne⟩ := hb
        obtain ⟨d, p, rfl⟩ := List.exists_cons_of_ne_nil hne
        obtain ⟨⟨qs, r''⟩, hrest, heq⟩ := Option.map_eq_some_iff.1 h
        cases heq
        have hlt : p.length < (backslash :: d :: p).length := by
          simp only [List.length_cons]
          omega
        obtain ⟨hl, hp, hr⟩ := ih _ hlt hrest rfl
        exact ⟨.escape d hl, congrArg (fun l => backslash :: d :: l) hp, hr⟩
      · rw [dif_neg hb] at h
        obtain ⟨⟨qs, r''⟩, hrest, heq⟩ := Option.map_eq_some_iff.1 h
        cases heq
        obtain ⟨hl, hp, hr⟩ := ih _ (Nat.lt_succ_self _) hrest rfl
        refine ⟨.plain hq.1 hq.2 (fun hc => ?_) hl, congrArg (c :: ·) hp, hr⟩
        obtain rfl : p = [] := by
          by_contra hne
          exact hb ⟨hc, hne⟩
        rw [lexWord] at hrest
        exact (Prod.mk.inj (Option.some.inj hrest)).1.symm

lemma Lexed.split (h : Lexed ps) (hu : rawText ps = u ++ r)
    (hclean : ∀ c ∈ u, c ≠ singleQuote ∧ c ≠ doubleQuote ∧ c ≠ backslash) :
    ∃ qs, ps = u.map .plain ++ qs ∧ Lexed qs ∧ r = rawText qs := by
  induction u generalizing ps with
  | nil => exact ⟨ps, rfl, h, hu.symm⟩
  | cons c u ih =>
    obtain ⟨hs, hq, hb⟩ := hclean c List.mem_cons_self
    cases h with
    | nil => exact nomatch hu
    | plain _ _ _ h =>
      obtain ⟨rfl, hrest⟩ := List.cons.inj hu
      obtain ⟨qs, rfl, hqs, hr⟩ := ih h hrest fun d hd => hclean d (List.mem_cons_of_mem _ hd)
      exact ⟨qs, rfl, hqs, hr⟩
    | escape _ h => exact absurd (List.cons.inj hu).1.symm hb
    | quoted hq' _ h =>
      obtain rfl := (List.cons.inj hu).1
      exact (hq'.elim hs hq).elim

def SameQuoting (v : Vars) (ps : List Part) : Prop := (expandFrom v (rawText ps) {}).2 = ps

lemma expandFrom_parts (h : Lexed ps) (e : Expansion) :
    (expandFrom v (rawText ps) e).2 = ps ↔ ∀ t, .quoted doubleQuote t ∈ ps → ¬ OddTail t := by
  induction hk : ps.length using Nat.strong_induction_on generalizing ps e with
  | _ k ih =>
    subst hk
    cases h with
    | nil => exact iff_of_true (congrArg Prod.snd expandFrom_nil) fun t ht => absurd ht List.not_mem_nil
    | @plain c ps hs hq hb h =>
      by_cases hd : c = dollar
      · subst hd
        obtain ⟨u, hu, hclean⟩ := expandVar_split v (rawText ps)
        obtain ⟨qs, rfl, hqs, hr⟩ := h.split hu hclean
        have hconsumed := expandVar_consumed v (rawText (u.map .plain ++ qs))
        rw [hr, rawText_append, rawText_plain] at hconsumed
        have htake := List.append_cancel_right hconsumed
        rw [rawText_append, rawText_plain] at hr
        have hlt : qs.length < (Part.plain dollar :: (u.map .plain ++ qs)).length := by
          simp only [List.length_cons, List.length_append]
          omega
        rw [rawText_cons, Part.text, List.singleton_append, expandFrom_dollar, rawText_append, rawText_plain, hr, htake,
          List.map_cons, List.cons_append, List.cons_inj_right, List.append_cancel_left_eq, ih qs.length hlt hqs _ rfl]
        simp
      · rw [rawText_cons, Part.text, List.singleton_append,
          expandFrom_plain hs hq hd fun hc => by rw [hb hc]; rfl, List.cons_inj_right,
          ih ps.length (Nat.lt_succ_self _) h _ rfl]
        simp
    | escape c h =>
      rename_i ps
      rw [rawText_cons, Part.text, List.cons_append, List.singleton_append, expandFrom_escape, List.cons_inj_right,
        ih ps.length (Nat.lt_succ_self _) h _ rfl]
      simp
    | @quoted q t ps hq ht h =>
      have htext : rawText (.quoted q t :: ps) = q :: (t ++ q :: rawText ps) := by
        rw [rawText_cons, Part.text]
        simp
      rcases hq with rfl | rfl
      · rw [htext, expandFrom_single ht, List.cons_inj_right, ih ps.length (Nat.lt_succ_self _) h _ rfl]
        simp [singleQuote, doubleQuote]
      · have hin := quotedFrom_inside (v := v) (r := rawText ps) (w := e.w) ht
        unfold Inside at hin
        by_cases ho : OddTail t
        · rw [if_pos ho] at hin
          obtain ⟨x, hx⟩ := hin
          refine iff_of_false (fun heq => ?_) fun hall => hall t List.mem_cons_self ho
          rw [htext] at heq
          rcases hq : quotedFrom v (t ++ doubleQuote :: rawText ps) e.w with ⟨t', ro, w'⟩
          rw [hq] at hx
          cases ro with
          | none =>
            rw [expandFrom_unclosed hq] at heq
            exact nomatch heq
          | some r' =>
            rw [expandFrom_double hq] at heq
            have hsame : t' = t := (Part.quoted.inj (List.cons.inj heq).1).2
            have hlen := congrArg List.length (hsame.symm.trans hx)
            rw [List.length_append, List.length_cons] at hlen
            omega
        · rw [if_neg ho] at hin
          obtain ⟨w', hw⟩ := hin
          rw [htext, expandFrom_double hw, List.cons_inj_right, ih ps.length (Nat.lt_succ_self _) h _ rfl]
          simp [ho]

lemma lexOp_ne_word {x : Token × Text} (h : lexOp p = some x) : x.1 ≠ .word ps := by
  unfold lexOp at h
  split at h <;> cases h <;> nofun

lemma nextToken_word (h : nextToken p = some (some (.word ps, r))) : ∃ q, lexWord q = some (ps, r) := by
  unfold nextToken at h
  split at h
  · cases Option.some.inj h
  · rename_i c q _
    split_ifs at h
    · cases Option.some.inj h
    · split at h
      · rename_i x hx
        cases h
        exact absurd rfl (lexOp_ne_word hx)
      · obtain ⟨⟨qs, r'⟩, hw, heq⟩ := Option.map_eq_some_iff.1 h
        cases heq
        exact ⟨_, hw⟩

lemma lexed_of_mem (h : lexFrom room p = some toks) (hps : .word ps ∈ toks) : Lexed ps := by
  induction room generalizing p toks with
  | zero => exact nomatch h
  | succ room ih =>
    rw [lexFrom] at h
    split at h
    · exact nomatch h
    · cases h
      exact nomatch List.mem_singleton.1 hps
    · rename_i t r hnext
      obtain ⟨ts, hts, rfl⟩ := Option.map_eq_some_iff.1 h
      rcases List.mem_cons.1 hps with rfl | hps
      · obtain ⟨q, hq⟩ := nextToken_word hnext
        exact (lexWord_lexed hq).1
      · exact ih hts hps

end Lexed

end MyOS.User.Shell
