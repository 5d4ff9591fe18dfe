import MyOS.User.Rm

/-! `rm -r` returns unless a path that is cut off names a directory that it comes from. -/

namespace MyOS.User.Rm

open Library Words Fs Function

structure Shrinks (s t : Space) : Prop where
  isDir : t.isDir = s.isDir
  cwd : t.cwd = s.cwd
  stacked : t.stacked = s.stacked
  refuses : t.refuses = s.refuses
  sublist : ∀ d, (t.entries d).Sublist (s.entries d)

def Removed (s t : Space) (p : Place) : Prop := ∃ d n, p = d ++ [n] ∧ n ∈ s.entries d ∧ n ∉ t.entries d

namespace Shrinks

variable {s t u : Space} {p q : Place} {n : Name} {ns : List Name} {path : List UInt8}

lemma refl (s : Space) : Shrinks s s := ⟨rfl, rfl, rfl, rfl, fun _ => List.Sublist.refl _⟩

lemma trans (h : Shrinks s t) (h' : Shrinks t u) : Shrinks s u :=
  ⟨h'.isDir.trans h.isDir, h'.cwd.trans h.cwd, h'.stacked.trans h.stacked, h'.refuses.trans h.refuses,
    fun d => (h'.sublist d).trans (h.sublist d)⟩

lemma entries (h : Shrinks s t) (d : Place) : t.entries d ⊆ s.entries d := (h.sublist d).subset

lemma step (h : Shrinks s t) (ht : t.step p n = .ok q) : s.step p n = .ok q := by
  unfold Space.step Space.up at ht ⊢
  rw [h.isDir, h.stacked] at ht
  by_cases hd : s.isDir p = false
  · rw [if_pos hd] at ht
    exact nomatch ht
  rw [if_neg hd] at ht ⊢
  by_cases hdot : n = [dot]
  · rwa [if_pos hdot] at ht ⊢
  rw [if_neg hdot] at ht ⊢
  by_cases hdots : n = dotDot
  · rwa [if_pos hdots] at ht ⊢
  rw [if_neg hdots] at ht ⊢
  by_cases hmem : n ∈ t.entries p
  · rw [if_pos hmem] at ht
    rwa [if_pos (h.entries p hmem)]
  · rw [if_neg hmem] at ht
    exact nomatch ht

lemma walk (h : Shrinks s t) (ht : t.walk ns p = .ok q) : s.walk ns p = .ok q := by
  induction ns generalizing p with
  | nil => exact ht
  | cons n ns ih =>
    rw [Space.walk] at ht ⊢
    split_ifs at ht ⊢
    cases hstep : t.step p n with
    | error e =>
      rw [hstep] at ht
      exact nomatch ht
    | ok r =>
      rw [hstep] at ht
      rw [h.step hstep]
      exact ih ht

lemma start (h : Shrinks s t) (path : List UInt8) : t.start path = s.start path := by
  rw [Space.start, Space.start, h.cwd]

lemma lookup (h : Shrinks s t) (ht : t.lookup path = .ok p) : s.lookup path = .ok p := by
  rw [Space.lookup] at ht ⊢
  split_ifs at ht ⊢
  rw [h.start] at ht
  exact h.walk ht

end Shrinks

lemma Removed.split {s u : Space} {p : Place} (t : Space) (h : Removed s u p) : Removed s t p ∨ Removed t u p := by
  obtain ⟨d, n, hp, hs, hu⟩ := h
  by_cases ht : n ∈ t.entries d
  · exact .inr ⟨d, n, hp, ht, hu⟩
  · exact .inl ⟨d, n, hp, hs, ht⟩

lemma not_removed_self {s : Space} {p : Place} : ¬ Removed s s p := by
  rintro ⟨d, n, -, h, h'⟩
  exact h' h

namespace Space

variable {s t : Space} {p q d : Place} {n : Name} {ns ws : List Name} {path l r : List UInt8}

lemma walk_append : s.walk (ns ++ ws) p = match s.walk ns p with
    | .error e => .error e
    | .ok q => s.walk ws q := by
  induction ns generalizing p with
  | nil => rfl
  | cons n ns ih =>
    rw [List.cons_append, walk, walk]
    split_ifs
    · rfl
    · cases s.step p n with
      | error e => rfl
      | ok q => exact ih

lemma walk_name (hn : FileName n) (hd : s.isDir p = true) :
    s.walk [n] p = if n ∈ s.entries p then .ok (p ++ [n]) else .error .ENOENT := by
  rw [walk, if_neg (Nat.not_lt.2 hn.short), step, if_neg (by rw [hd]; nofun), if_neg hn.notDot, if_neg hn.notDotDot]
  split_ifs <;> rfl

lemma walk_dot (hd : s.isDir p = true) : s.walk [[dot]] p = .ok p := by
  rw [walk, if_neg (by decide), step, if_neg (by rw [hd]; nofun), if_pos rfl]
  rfl

lemma walk_dotDot (hd : s.isDir p = true) : s.walk [dotDot] p = .ok (s.up p) := by
  rw [walk, if_neg (by decide), step, if_neg (by rw [hd]; nofun), if_neg (by decide), if_pos rfl]
  rfl

lemma lookup_append (hl : l ≠ []) (hlen : (l ++ slash :: r).length < pathMax) :
    s.lookup (l ++ slash :: r) = match s.lookup l with
      | .error e => .error e
      | .ok p => s.walk (words slash r) p := by
  have hshort : ¬ pathMax ≤ l.length := by
    rw [List.length_append] at hlen
    omega
  have hstart : s.start (l ++ slash :: r) = s.start l := by
    obtain ⟨c, l, rfl⟩ := List.exists_cons_of_ne_nil hl
    rfl
  rw [lookup, if_neg (List.append_ne_nil_of_left_ne_nil hl _), if_neg (Nat.not_le.2 hlen), words_append_sep,
    walk_append, hstart, lookup, if_neg hl, if_neg hshort]

lemma lookup_short (h : s.lookup path = .ok p) : path ≠ [] ∧ path.length < pathMax := by
  rw [lookup] at h
  split_ifs at h with hne hlen
  exact ⟨hne, Nat.not_le.1 hlen⟩

lemma isDir_of_entries (h : s.entries p ≠ []) : s.isDir p = true := by
  cases hd : s.isDir p with
  | true => rfl
  | false => exact absurd (s.file p hd) h

lemma linked_of_below (h : n ∈ s.entries (p ++ ws)) : ws = [] ∨ ∃ w ws', ws = w :: ws' ∧ w ∈ s.entries p := by
  induction ws using List.reverseRecOn generalizing n with
  | nil => exact .inl rfl
  | append_singleton ws w ih =>
    rw [← List.append_assoc] at h
    have hw := s.linked (p ++ ws) w (List.ne_nil_of_mem h)
    rcases ih hw with rfl | ⟨v, ws', rfl, hv⟩
    · rw [List.append_nil] at hw
      exact .inr ⟨w, [], rfl, hw⟩
    · exact .inr ⟨v, ws' ++ [w], rfl, hv⟩

lemma entries_ne_nil_of_below (h : n ∈ s.entries (p ++ ws)) : s.entries p ≠ [] := by
  rcases linked_of_below h with rfl | ⟨w, ws', -, hw⟩
  · rw [List.append_nil] at h
    exact List.ne_nil_of_mem h
  · exact List.ne_nil_of_mem hw

lemma lookupParent_some (h : s.lookupParent path = some (d, n)) :
    s.lookup path = s.walk [n] d ∧ (words slash path).getLast? = some n ∧ n ≠ [dot] ∧ n ≠ dotDot ∧
      n.length ≤ nameMax ∧ s.isDir d = true := by
  rw [lookupParent] at h
  split_ifs at h with hpath
  rw [not_or] at hpath
  cases hlast : (words slash path).getLast? with
  | none =>
    rw [hlast] at h
    exact nomatch h
  | some m =>
    rw [hlast] at h
    cases hwalk : s.walk (words slash path).dropLast (s.start path) with
    | error e =>
      rw [hwalk] at h
      exact nomatch h
    | ok e =>
      rw [hwalk] at h
      dsimp only at h
      split_ifs at h with hbad
      obtain ⟨rfl, rfl⟩ := Prod.mk.inj (Option.some.inj h)
      simp only [not_or, Nat.not_lt, Bool.not_eq_false] at hbad
      refine ⟨?_, rfl, hbad.1, hbad.2.1, hbad.2.2.1, hbad.2.2.2⟩
      have hwords : words slash path = (words slash path).dropLast ++ [m] :=
        (List.dropLast_append_getLast? m hlast).symm
      rw [lookup, if_neg hpath.1, if_neg hpath.2, hwords, walk_append, hwalk]

lemma entries_remove (h : s.entries (d ++ [n]) = []) :
    (s.remove d n h).entries = update s.entries d ((s.entries d).erase n) := rfl

lemma removeAt_some {dir : Bool} (h : s.removeAt dir path = some t) :
    Shrinks s t ∧ ∃ d n, s.lookup path = .ok (d ++ [n]) ∧ n ∈ s.entries d ∧
      t.entries = update s.entries d ((s.entries d).erase n) := by
  rw [removeAt] at h
  split at h
  · exact nomatch h
  · rename_i d n hparent
    split_ifs at h with hc
    cases h
    obtain ⟨hlookup, -, -, -, -, hd⟩ := lookupParent_some hparent
    refine ⟨⟨rfl, rfl, rfl, rfl, fun e => ?_⟩, d, n, ?_, hc.1, rfl⟩
    · by_cases he : e = d
      · subst he
        rw [entries_remove, update_self]
        exact List.erase_sublist
      · rw [entries_remove, update_of_ne he]
    · rw [hlookup, walk_name (s.valid d n hc.1) hd, if_pos hc.1]

lemma removeAt_dotDot {dir : Bool} (h : (words slash path).getLast? = some dotDot) : s.removeAt dir path = none := by
  rw [removeAt]
  split
  · rfl
  · rename_i d n hparent
    obtain ⟨-, hlast, -, hdots, -, -⟩ := lookupParent_some hparent
    exact absurd (Option.some.inj (hlast.symm.trans h)) hdots

lemma refuses_of_removeAt {dir : Bool} (h : s.removeAt dir path = some t) (hp : s.lookup path = .ok p) :
    s.refuses p = false := by
  rw [removeAt] at h
  split at h
  · exact nomatch h
  · rename_i d n hparent
    split_ifs at h with hc
    obtain ⟨hlookup, -, -, -, -, hd⟩ := lookupParent_some hparent
    rw [hlookup, walk_name (s.valid d n hc.1) hd, if_pos hc.1] at hp
    cases hp
    exact hc.2.2.1

lemma words_fileName (hn : FileName n) : words slash n = [n] := by
  have := words_append (l := []) hn.word (fun _ _ h => nomatch h)
  rwa [List.append_nil] at this

lemma lookupParent_name (hl : s.lookup l = .ok d) (hn : FileName n) (hd : s.isDir d = true)
    (hlen : (l ++ slash :: n).length < pathMax) : s.lookupParent (l ++ slash :: n) = some (d, n) := by
  obtain ⟨hne, hshort⟩ := lookup_short hl
  have hstart : s.start (l ++ slash :: n) = s.start l := by
    obtain ⟨c, l, rfl⟩ := List.exists_cons_of_ne_nil hne
    rfl
  rw [lookup, if_neg hne, if_neg (Nat.not_le.2 hshort)] at hl
  rw [lookupParent, if_neg (not_or.2 ⟨List.append_ne_nil_of_left_ne_nil hne _, Nat.not_le.2 hlen⟩), words_append_sep,
    words_fileName hn, List.getLast?_concat, List.dropLast_concat, hstart, hl]
  have hgood : ¬ (n = [dot] ∨ n = dotDot ∨ nameMax < n.length ∨ s.isDir d = false) := by
    rintro (h | h | h | h)
    · exact hn.notDot h
    · exact hn.notDotDot h
    · exact Nat.not_le.2 h hn.short
    · rw [hd] at h
      exact nomatch h
  exact if_neg hgood

lemma removeAt_name (hl : s.lookup l = .ok d) (hn : n ∈ s.entries d) (hd : s.isDir d = true)
    (hlen : (l ++ slash :: n).length < pathMax) (hr : s.refuses (d ++ [n]) = false) (he : s.entries (d ++ [n]) = []) :
    s.removeAt (s.isDir (d ++ [n])) (l ++ slash :: n) = some (s.remove d n he) := by
  rw [removeAt, lookupParent_name hl (s.valid d n hn) hd hlen]
  exact dif_pos ⟨hn, rfl, hr, he⟩

lemma removed_of_removeAt {dir : Bool} (h : s.removeAt dir path = some t) (hp : s.lookup path = .ok p)
    (hq : Removed s t q) : q = p := by
  obtain ⟨-, d, n, hlookup, -, hentries⟩ := removeAt_some h
  cases hlookup.symm.trans hp
  obtain ⟨e, m, rfl, hm, hm'⟩ := hq
  rw [hentries] at hm'
  by_cases he : e = d
  · subst he
    rw [update_self] at hm'
    have hmn : m = n := by
      by_contra hne
      exact hm' ((List.mem_erase_of_ne hne).2 hm)
    rw [hmn]
  · rw [update_of_ne he] at hm'
    exact absurd hm hm'

end Space

structure Gone (t : Space) (p : Place) : Prop where
  ne_root : p ≠ []
  entry : ∀ d n, p = d ++ [n] → n ∉ t.entries d
  empty : ∀ ws, t.entries (p ++ ws) = []

lemma gone_of_entry {t : Space} {d : Place} {n : Name} (h : n ∉ t.entries d) : Gone t (d ++ [n]) where
  ne_root := by simp
  entry e m he := by
    obtain ⟨hd, hn⟩ := List.append_inj' he rfl
    rw [List.singleton_inj] at hn
    rwa [← hd, ← hn]
  empty ws := by
    by_contra hne
    obtain ⟨m, hm⟩ := List.exists_mem_of_ne_nil _ hne
    exact h (t.linked d n (Space.entries_ne_nil_of_below hm))

lemma gone_of_removeAt {s t : Space} {p : Place} {path : List UInt8} {dir : Bool}
    (h : s.removeAt dir path = some t) (hp : s.lookup path = .ok p) : Gone t p := by
  obtain ⟨-, d, n, hlookup, -, hentries⟩ := Space.removeAt_some h
  cases hlookup.symm.trans hp
  apply gone_of_entry
  rw [hentries, update_self]
  exact (s.nodup d).not_mem_erase

/-! The paths that are put together -/

section Child

variable {s : Space} {p q : Place} {path c : List UInt8} {n : Name}

def lastPart (path : List UInt8) (n : Name) : Name := n.take (pathMax - 2 - path.length)

def Stuck (path : List UInt8) (n : Name) : Prop :=
  lastPart path n = [] ∨ lastPart path n = [dot] ∨ lastPart path n = dotDot

lemma child_eq (h : path.length + 1 < pathMax) : child path n = path ++ slash :: lastPart path n := by
  have hroom : pathMax - 1 - path.length = pathMax - 2 - path.length + 1 := by omega
  have hfit : path.take (pathMax - 1) = path := List.take_of_length_le (by omega)
  rw [child, List.take_append, hfit, hroom, List.take_succ_cons, lastPart]

lemma child_full (h : path.length + 1 = pathMax) : child path n = path := by
  have hroom : pathMax - 1 - path.length = 0 := by omega
  have hfit : path.take (pathMax - 1) = path := List.take_of_length_le (by omega)
  rw [child, List.take_append, hfit, hroom, List.take_zero, List.append_nil]

lemma length_child_lt : (child path n).length < pathMax :=
  (List.length_take_le _ _).trans_lt (by decide)

lemma fileName_lastPart (hn : FileName n) (h : ¬ Stuck path n) : FileName (lastPart path n) := by
  rw [Stuck, not_or, not_or] at h
  exact ⟨⟨h.1, fun hm => hn.word.2 (List.mem_of_mem_take hm)⟩, h.2.1, h.2.2,
    (List.length_take_le' _ _).trans hn.short⟩

lemma lastPart_of_fit (h : (path ++ slash :: n).length < pathMax) : lastPart path n = n := by
  rw [List.length_append, List.length_cons] at h
  exact List.take_of_length_le (by omega)

lemma Stuck.long (h : Stuck path n) (hn : FileName n) : pathMax ≤ (path ++ slash :: n).length := by
  by_contra hlt
  have hfit := lastPart_of_fit (Nat.not_le.1 hlt)
  rw [Stuck, hfit] at h
  rcases h with h | h | h
  · exact hn.word.1 h
  · exact hn.notDot h
  · exact hn.notDotDot h

lemma Stuck.length_child (h : Stuck path n) (hn : FileName n) : (child path n).length + 1 = pathMax := by
  have hlong := h.long hn
  have hpos : 0 < pathMax := by decide
  rw [child, List.length_take, Nat.min_eq_left (by omega)]
  omega

lemma not_stuck_short (hpath : path.length < pathMax) (h : ¬ Stuck path n) : path.length + 1 < pathMax := by
  by_contra hlt
  have hroom : pathMax - 2 - path.length = 0 := by omega
  exact h (.inl (by rw [lastPart, hroom, List.take_zero]))

lemma words_lastPart (h : Word slash (lastPart path n)) : words slash (lastPart path n) = [lastPart path n] := by
  have := words_append (l := []) h (fun _ _ h => nomatch h)
  rwa [List.append_nil] at this

lemma lookup_child (hp : s.lookup path = .ok p) (hd : s.isDir p = true) (hn : FileName n) (h : ¬ Stuck path n) :
    s.lookup (child path n) =
      if lastPart path n ∈ s.entries p then .ok (p ++ [lastPart path n]) else .error .ENOENT := by
  obtain ⟨hne, hlen⟩ := Space.lookup_short hp
  have hlt : (child path n).length < pathMax := length_child_lt
  have hpart := fileName_lastPart hn h
  rw [child_eq (not_stuck_short hlen h)] at hlt ⊢
  rw [Space.lookup_append hne hlt, hp, words_lastPart hpart.word]
  exact Space.walk_name hpart hd

lemma lookup_child_stuck (hp : s.lookup path = .ok p) (hd : s.isDir p = true) (h : Stuck path n) :
    s.lookup (child path n) = .ok p ∨
      s.lookup (child path n) = .ok (s.up p) ∧ (words slash (child path n)).getLast? = some dotDot := by
  obtain ⟨hne, hlen⟩ := Space.lookup_short hp
  have hlt : (child path n).length < pathMax := length_child_lt
  by_cases hfull : path.length + 1 = pathMax
  · rw [child_full hfull]
    exact .inl hp
  rw [child_eq (by omega)] at hlt ⊢
  rw [Space.lookup_append hne hlt, hp]
  rcases h with h | h | h
  · rw [h]
    exact .inl rfl
  · rw [h]
    exact .inl (Space.walk_dot hd)
  · refine .inr ⟨?_, ?_⟩
    · rw [h]
      exact Space.walk_dotDot hd
    · have hword : Word slash (lastPart path n) := by
        rw [h]
        exact ⟨by decide, by decide⟩
      rw [words_append_sep, words_lastPart hword, List.getLast?_concat, h]

lemma entries_up (h : s.entries p ≠ []) : s.entries (s.up p) ≠ [] := by
  rw [Space.up]
  split_ifs
  · exact h
  · rcases List.eq_nil_or_concat' p with rfl | ⟨d, x, rfl⟩
    · exact h
    · rw [List.dropLast_concat]
      exact List.ne_nil_of_mem (s.linked d x h)

end Child

/-! Runs -/

section Runs

variable {force : Bool} {k : ℕ} {path c : List UInt8} {s t : Removal} {p q : Place} {n m : Name} {ns ws : List Name}
  {rm : List UInt8 → Removal → Option ℕ × Removal} {status : ℕ}

def Removal.reads (s : Removal) (p : Place) : Removal :=
  { s with seen := s.seen ++ (s.space.entries p).map (p ++ [·]) }

def finish (path : List UInt8) : Option ℕ × Removal → Option ℕ × Removal
  | (none, s) => (none, s)
  | (some status, s) =>
    match s.space.rmdir path with
    | none => (some 1, s)
    | some space => (some status, { s with space := space })

/-- The loop of `rm_path` over a directory. -/
abbrev loop (force : Bool) (k : ℕ) (path : List UInt8) (p : Place) (s : Removal) : Option ℕ × Removal :=
  removeAll (rmPath true force k) path (s.space.entries p) 0 (s.reads p)

lemma names_eq (s : Space) (p : Place) :
    ((s.readdir p).filter fun n => n ≠ [dot] ∧ n ≠ dotDot) = s.entries p := by
  have hall : ∀ n ∈ s.entries p, decide (n ≠ [dot] ∧ n ≠ dotDot) = true := fun n hn =>
    decide_eq_true ⟨(s.valid p n hn).notDot, (s.valid p n hn).notDotDot⟩
  rw [Space.readdir, List.filter_cons_of_neg (by decide), List.filter_cons_of_neg (by decide), List.filter_eq_self]
  exact hall

lemma rmPath_dir (hp : s.space.lookup path = .ok p) (hd : s.space.isDir p = true) :
    rmPath true force (k + 1) path s =
      finish path (loop force k path p s) := by
  rw [rmPath, hp]
  dsimp only
  rw [if_pos hd, if_neg (by decide), names_eq]
  rfl

lemma rmPath_file (hp : s.space.lookup path = .ok p) (hd : s.space.isDir p = false) :
    rmPath true force (k + 1) path s = match s.space.unlink path with
      | none => (some 1, s)
      | some space => (some 0, { s with space := space }) := by
  rw [rmPath, hp]
  dsimp only
  rw [hd]
  exact if_neg Bool.false_ne_true

lemma rmPath_error {e : PathError} (he : s.space.lookup path = .error e) (k : ℕ) : (rmPath true force k path s).2 = s := by
  cases k with
  | zero => rfl
  | succ k => rw [rmPath, he]

lemma removeAll_induction {P : Removal → Prop} (h : P s) (hrm : ∀ n ∈ ns, ∀ s, P s → P (rm (child path n) s).2) :
    P (removeAll rm path ns status s).2 := by
  induction ns generalizing s status with
  | nil => exact h
  | cons n ns ih =>
    have hfirst := hrm n List.mem_cons_self s h
    rw [removeAll]
    generalize rm (child path n) s = x at hfirst
    obtain ⟨_ | j, t⟩ := x
    · exact hfirst
    · exact ih hfirst fun n hn => hrm n (List.mem_cons_of_mem _ hn)

lemma finish_cases (path : List UInt8) (x : Option ℕ × Removal) :
    (finish path x).2 = x.2 ∧ (finish path x).1 ≠ some 0 ∨
      ∃ space, x.2.space.rmdir path = some space ∧ (finish path x).2 = { x.2 with space := space } := by
  obtain ⟨_ | j, t⟩ := x
  · exact .inl ⟨rfl, nofun⟩
  · rw [finish]
    cases h : t.space.rmdir path with
    | none => exact .inl ⟨rfl, fun h => absurd (Option.some.inj h) one_ne_zero⟩
    | some space => exact .inr ⟨space, rfl, rfl⟩

lemma rmPath_keeps {C : List UInt8 → Prop} {P : Removal → Prop} (hchild : ∀ path n, C path → C (child path n))
    (hreads : ∀ s p, P s → P (s.reads p))
    (hremove : ∀ dir path s space, C path → P s → s.space.removeAt dir path = some space →
      P { s with space := space }) (k : ℕ) (hc : C path) (h : P s) : P (rmPath true force k path s).2 := by
  induction k generalizing path s with
  | zero => exact h
  | succ k ih =>
    cases hp : s.space.lookup path with
    | error e => rwa [rmPath_error hp]
    | ok p =>
      cases hd : s.space.isDir p with
      | false =>
        rw [rmPath_file hp hd]
        cases hu : s.space.unlink path with
        | none => exact h
        | some space => exact hremove _ path s space hc h hu
      | true =>
        have hloop : P (loop force k path p s).2 :=
          removeAll_induction (hreads s p h) fun n _ t ht => ih (hchild path n hc) ht
        rw [rmPath_dir hp hd]
        rcases finish_cases path (loop force k path p s) with ⟨h, -⟩ | ⟨space, hr, h⟩
        · rwa [h]
        · rw [h]
          exact hremove _ path _ space hc hloop hr

lemma rmPath_shrinks (force : Bool) (k : ℕ) (path : List UInt8) (s : Removal) :
    Shrinks s.space (rmPath true force k path s).2.space :=
  rmPath_keeps (C := fun _ => True) (P := fun t => Shrinks s.space t.space) (fun _ _ h => h) (fun _ _ h => h)
    (fun _ _ _ _ _ h hr => h.trans (Space.removeAt_some hr).1) k trivial (Shrinks.refl _)

lemma removeAll_shrinks : Shrinks s.space (removeAll (rmPath true force k) path ns status s).2.space :=
  removeAll_induction (P := fun t => Shrinks s.space t.space) (Shrinks.refl _)
    fun n _ t ht => ht.trans (rmPath_shrinks force k (child path n) t)

lemma loop_shrinks : Shrinks s.space (loop force k path p s).2.space := removeAll_shrinks (s := s.reads p)

lemma rmPath_seen (k : ℕ) (path : List UInt8) (s : Removal) : s.seen ⊆ (rmPath true force k path s).2.seen :=
  rmPath_keeps (C := fun _ => True) (P := fun t => s.seen ⊆ t.seen) (fun _ _ h => h)
    (fun _ _ h _ hq => List.mem_append_left _ (h hq)) (fun _ _ _ _ _ h _ => h) k trivial fun _ h => h

lemma rmPath_dotDot (hc : path.length + 1 = pathMax) (hlast : (words slash path).getLast? = some dotDot) (k : ℕ)
    (s : Removal) : (rmPath true force k path s).2.space = s.space := by
  refine rmPath_keeps (C := (· = path)) (P := fun t => t.space = s.space) ?_ (fun _ _ h => h) ?_ k rfl rfl
  · rintro _ n rfl
    exact child_full hc
  · rintro dir _ t space rfl - hr
    rw [Space.removeAt_dotDot hlast] at hr
    exact nomatch hr

/-- Only what is at the place or below it was removed, and below it only what was read before. -/
structure Within (p : Place) (a b : Removal) : Prop where
  inside : ∀ q, Removed a.space b.space q → p <+: q
  read : ∀ q, Removed a.space b.space q → q = p ∨ q ∈ b.seen

lemma Within.refl (p : Place) (s : Removal) : Within p s s :=
  ⟨fun _ h => absurd h not_removed_self, fun _ h => absurd h not_removed_self⟩

lemma lookup_of_removeAt {a b u : Space} {dir : Bool} (h : Shrinks a b) (hp : a.lookup path = .ok p)
    (hu : b.removeAt dir path = some u) : b.lookup path = .ok p := by
  obtain ⟨-, d, n, hlookup, -, -⟩ := Space.removeAt_some hu
  cases (h.lookup hlookup).symm.trans hp
  exact hlookup

lemma within_call (ih : ∀ c s q, s.space.lookup c = .ok q → Within q s (rmPath true force k c s).2)
    (hp : s.space.lookup path = .ok p) (hd : s.space.isDir p = true) (hn : n ∈ s.space.entries p)
    (hshrinks : Shrinks s.space t.space) (hseen : (s.reads p).seen ⊆ t.seen) (hw : Within p s t) :
    Within p s (rmPath true force k (child path n) t).2 := by
  have hlater : t.seen ⊆ (rmPath true force k (child path n) t).2.seen := rmPath_seen k _ _
  have hcall : ∀ q, Removed t.space (rmPath true force k (child path n) t).2.space q →
      p <+: q ∧ (q = p ∨ q ∈ (rmPath true force k (child path n) t).2.seen) := by
    intro q hq
    cases hc : t.space.lookup (child path n) with
    | error e =>
      rw [rmPath_error hc] at hq
      exact absurd hq not_removed_self
    | ok r =>
      have hin := ih (child path n) t r hc
      have hr := hshrinks.lookup hc
      by_cases hstuck : Stuck path n
      · rcases lookup_child_stuck hp hd hstuck with h | ⟨-, h⟩
        · cases hr.symm.trans h
          exact ⟨hin.inside q hq, hin.read q hq⟩
        · rw [rmPath_dotDot (hstuck.length_child (s.space.valid p n hn)) h] at hq
          exact absurd hq not_removed_self
      · rw [lookup_child hp hd (s.space.valid p n hn) hstuck] at hr
        split_ifs at hr with hmem
        cases hr
        refine ⟨(List.prefix_append _ _).trans (hin.inside q hq), .inr ?_⟩
        rcases hin.read q hq with rfl | h
        · exact hlater (hseen (List.mem_append_right _ (List.mem_map_of_mem hmem)))
        · exact h
  refine ⟨fun q hq => ?_, fun q hq => ?_⟩
  · rcases hq.split t.space with h | h
    · exact hw.inside q h
    · exact (hcall q h).1
  · rcases hq.split t.space with h | h
    · exact (hw.read q h).imp id fun h => hlater h
    · exact (hcall q h).2

lemma within_loop (ih : ∀ c s q, s.space.lookup c = .ok q → Within q s (rmPath true force k c s).2)
    (hp : s.space.lookup path = .ok p) (hd : s.space.isDir p = true) :
    Within p s (loop force k path p s).2 := by
  have hstart : Within p s (s.reads p) :=
    ⟨fun _ h => absurd h not_removed_self, fun _ h => absurd h not_removed_self⟩
  have hloop : Shrinks s.space (loop force k path p s).2.space ∧
      (s.reads p).seen ⊆ (loop force k path p s).2.seen ∧
      Within p s (loop force k path p s).2 :=
    removeAll_induction (P := fun t => Shrinks s.space t.space ∧ (s.reads p).seen ⊆ t.seen ∧ Within p s t)
      ⟨Shrinks.refl _, fun _ h => h, hstart⟩ fun n hn t ⟨h₁, h₂, h₃⟩ =>
        ⟨h₁.trans (rmPath_shrinks force k _ _), fun _ h => rmPath_seen k _ _ (h₂ h), within_call ih hp hd hn h₁ h₂ h₃⟩
  exact hloop.2.2

lemma rmPath_within (k : ℕ) (path : List UInt8) (s : Removal) (p : Place) (hp : s.space.lookup path = .ok p) :
    Within p s (rmPath true force k path s).2 ∧
      ((rmPath true force k path s).1 = some 0 → Gone (rmPath true force k path s).2.space p) := by
  induction k generalizing path s p with
  | zero => exact ⟨Within.refl p s, nofun⟩
  | succ k ih =>
    cases hd : s.space.isDir p with
    | false =>
      rw [rmPath_file hp hd]
      cases hu : s.space.unlink path with
      | none => exact ⟨Within.refl p s, fun h => absurd (Option.some.inj h) one_ne_zero⟩
      | some space =>
        refine ⟨⟨fun q hq => ?_, fun q hq => .inl (Space.removed_of_removeAt hu hp hq)⟩,
          fun _ => gone_of_removeAt hu hp⟩
        rw [Space.removed_of_removeAt hu hp hq]
    | true =>
      have hw := within_loop (fun c s q hq => (ih c s q hq).1) hp hd
      have hshrinks : Shrinks s.space (loop force k path p s).2.space := loop_shrinks
      rw [rmPath_dir hp hd]
      generalize loop force k path p s = x at hw hshrinks
      rcases finish_cases path x with ⟨h, h0⟩ | ⟨space, hr, h⟩
      · rw [h]
        exact ⟨hw, fun h' => absurd h' h0⟩
      · rw [h]
        have hlookup := lookup_of_removeAt hshrinks hp hr
        refine ⟨⟨fun q hq => ?_, fun q hq => ?_⟩, fun _ => gone_of_removeAt hr hlookup⟩
        · rcases hq.split x.2.space with h | h
          · exact hw.inside q h
          · rw [Space.removed_of_removeAt hr hlookup h]
        · rcases hq.split x.2.space with h | h
          · exact hw.read q h
          · exact .inl (Space.removed_of_removeAt hr hlookup h)

/-! What a run takes away -/

def under (path : List UInt8) (ws : List Name) : List UInt8 := path ++ prefixed slash ws

lemma under_nil : under path [] = path := by rw [under, prefixed_nil, List.append_nil]

lemma under_concat : under path (ws ++ [n]) = under path ws ++ slash :: n := by
  rw [under, prefixed_concat, ← List.append_assoc, under]

lemma under_append_length : (under path (ws ++ ns)).length = (under path ws).length + (prefixed slash ns).length := by
  rw [under, prefixed_append, ← List.append_assoc, List.length_append, under]

lemma child_under (hlen : (under path ws).length < pathMax) (h : ¬ Stuck (under path ws) n) :
    child (under path ws) n = under path (ws ++ [lastPart (under path ws) n]) := by
  rw [child_eq (not_stuck_short hlen h), under_concat]

lemma entry_above {a : Space} {vs us : List Name} (hn : n ∈ a.entries (p ++ vs)) (h : us ++ [m] <+: vs ++ [n]) :
    m ∈ a.entries (p ++ us) := by
  rcases List.prefix_concat_iff.1 h with heq | ⟨rest, rfl⟩
  · obtain ⟨rfl, hm⟩ := List.append_inj' heq rfl
    rwa [List.singleton_inj.1 hm]
  · rw [← List.append_assoc, ← List.append_assoc] at hn
    exact a.linked (p ++ us) m (Space.entries_ne_nil_of_below hn)

lemma lookup_under {a : Space} (hp : a.lookup path = .ok p) (hlen : (under path ws).length < pathMax)
    (hws : ∀ us m, us ++ [m] <+: ws → m ∈ a.entries (p ++ us)) : a.lookup (under path ws) = .ok (p ++ ws) := by
  induction ws using List.reverseRecOn with
  | nil => rwa [under_nil, List.append_nil]
  | append_singleton ws w ih =>
    have hw := hws ws w (List.prefix_refl _)
    rw [under_concat] at hlen ⊢
    have hshort : (under path ws).length < pathMax := by
      rw [List.length_append] at hlen
      omega
    have hrest := ih hshort fun us m hm => hws us m (hm.trans (List.prefix_append _ _))
    rw [Space.lookup_append (Space.lookup_short hrest).1 hlen, hrest, Space.words_fileName (a.valid _ w hw)]
    dsimp only
    rw [Space.walk_name (a.valid _ w hw) (Space.isDir_of_entries (List.ne_nil_of_mem hw)), if_pos hw, List.append_assoc]

lemma lookup_below {a : Space} (hp : a.lookup path = .ok p) (hws : ∀ w ∈ ws, FileName w)
    (hq : a.lookup (under path ws) = .ok q) : q = p ++ ws := by
  induction ws using List.reverseRecOn generalizing q with
  | nil =>
    rw [under_nil] at hq
    rw [List.append_nil]
    exact Except.ok.inj (hq.symm.trans hp)
  | append_singleton ws w ih =>
    obtain ⟨hne, hlen⟩ := Space.lookup_short hq
    have hw := hws w (List.mem_append_right _ List.mem_cons_self)
    have hpath : under path ws ≠ [] := List.append_ne_nil_of_left_ne_nil (Space.lookup_short hp).1 _
    rw [under_concat] at hq hlen
    rw [Space.lookup_append hpath hlen, Space.words_fileName hw] at hq
    cases hr : a.lookup (under path ws) with
    | error e =>
      rw [hr] at hq
      exact nomatch hq
    | ok r =>
      rw [hr] at hq
      have hrp := ih (fun v hv => hws v (List.mem_append_left _ hv)) hr
      cases hdir : a.isDir r with
      | true =>
        dsimp only at hq
        rw [Space.walk_name hw hdir] at hq
        split_ifs at hq
        rw [← Except.ok.inj hq, hrp, List.append_assoc]
      | false =>
        dsimp only at hq
        rw [Space.walk, if_neg (Nat.not_lt.2 hw.short), Space.step, if_pos hdir] at hq
        exact nomatch hq

lemma lookup_of_under {a : Space} (hpath : path ≠ []) (hq : a.lookup (under path ws) = .ok q) : ∃ r, a.lookup path = .ok r := by
  cases ws with
  | nil => exact ⟨q, by rwa [under_nil] at hq⟩
  | cons w ws =>
    have hlen := (Space.lookup_short hq).2
    rw [under, prefixed_cons] at hq hlen
    rw [Space.lookup_append hpath hlen] at hq
    cases hr : a.lookup path with
    | error e =>
      rw [hr] at hq
      exact nomatch hq
    | ok r => exact ⟨r, rfl⟩

/-- What is gone below the place had a path of its own, and might be removed. -/
structure Taken (s : Space) (path : List UInt8) (p : Place) (a : Space) : Prop where
  shrinks : Shrinks s a
  gone : ∀ vs, ∀ n ∈ s.entries (p ++ vs), n ∉ a.entries (p ++ vs) →
    (under path (vs ++ [n])).length < pathMax ∧ s.refuses (p ++ vs ++ [n]) = false

lemma fileNames_concat (hws : ∀ w ∈ ws, FileName w) (hn : FileName n) : ∀ w ∈ ws ++ [n], FileName w := by
  intro w hw
  rcases List.mem_append.1 hw with hw | hw
  · exact hws w hw
  · rwa [List.mem_singleton.1 hw]

namespace Taken

variable {a b : Space} {o : Space}

lemma refl (o : Space) (path : List UInt8) (p : Place) : Taken o path p o :=
  ⟨Shrinks.refl o, fun _ _ h h' => absurd h h'⟩

lemma removeAt {dir : Bool} (h : Taken o path p a) (hq : a.lookup (under path ws) = .ok (p ++ ws))
    (hb : a.removeAt dir (under path ws) = some b) : Taken o path p b := by
  refine ⟨h.shrinks.trans (Space.removeAt_some hb).1, fun vs n hn hgone => ?_⟩
  by_cases ha : n ∈ a.entries (p ++ vs)
  · have hplace := Space.removed_of_removeAt hb hq ⟨p ++ vs, n, rfl, ha, hgone⟩
    rw [List.append_assoc, List.append_cancel_left_eq] at hplace
    rw [List.append_assoc, hplace]
    exact ⟨(Space.lookup_short hq).2, h.shrinks.refuses ▸ Space.refuses_of_removeAt hb hq⟩
  · exact h.gone vs n hn ha

lemma stuck (h : Taken o path p a) (hn : n ∈ o.entries (p ++ ws)) (hstuck : Stuck (under path ws) n) :
    n ∈ a.entries (p ++ ws) := by
  by_contra hgone
  have hshort := (h.gone ws n hn hgone).1
  rw [under_concat] at hshort
  exact absurd (hstuck.long (o.valid _ n hn)) (Nat.not_le.2 hshort)

end Taken

lemma Space.removeAt_entries {a b : Space} {dir : Bool} (h : a.removeAt dir path = some b) (hp : a.lookup path = .ok p) :
    a.entries p = [] := by
  rw [Space.removeAt] at h
  split at h
  · exact nomatch h
  · rename_i d n hparent
    split_ifs at h with hgood
    obtain ⟨hlook, -, -, -, -, hd⟩ := Space.lookupParent_some hparent
    rw [hp, Space.walk_name (a.valid d n hgood.1) hd, if_pos hgood.1] at hlook
    rw [Except.ok.inj hlook]
    exact hgood.2.2.2

lemma rmPath_full_space (hc : path.length + 1 = pathMax) (he : ∀ q, s.space.lookup path = .ok q → s.space.entries q ≠ [])
    (k : ℕ) : (rmPath true force k path s).2.space = s.space := by
  refine rmPath_keeps (C := (· = path)) (P := fun t => t.space = s.space) ?_ (fun _ _ h => h) ?_ k rfl rfl
  · rintro _ n rfl
    exact child_full hc
  · -- the directory is not empty
    rintro dir _ t space rfl ht hr
    obtain ⟨-, d, n, hlookup, -⟩ := Space.removeAt_some hr
    have hempty := Space.removeAt_entries hr hlookup
    rw [ht] at hlookup hempty
    exact absurd hempty (he _ hlookup)

lemma rmPath_child_stuck (hp : s.space.lookup path = .ok p) (he : s.space.entries p ≠ []) (hn : FileName n)
    (h : Stuck path n) (k : ℕ) : (rmPath true force k (child path n) s).2.space = s.space := by
  refine rmPath_full_space (h.length_child hn) (fun q hq => ?_) k
  rcases lookup_child_stuck hp (Space.isDir_of_entries he) h with hc | ⟨hc, -⟩
  · cases hq.symm.trans hc
    exact he
  · cases hq.symm.trans hc
    exact entries_up he

lemma lookup_of_child {a : Space} (hpath : path ≠ []) (hlen : path.length < pathMax) (h : a.lookup (child path n) = .ok q) :
    ∃ r, a.lookup path = .ok r := by
  by_cases hfull : path.length + 1 = pathMax
  · rw [child_full hfull] at h
    exact ⟨q, h⟩
  · have hshort := (Space.lookup_short h).2
    rw [child_eq (by omega)] at h hshort
    rw [Space.lookup_append hpath hshort] at h
    cases hr : a.lookup path with
    | error e =>
      rw [hr] at h
      exact nomatch h
    | ok r => exact ⟨r, rfl⟩

section Taken

variable {o : Space}

lemma Taken.child (h : Taken o path p t.space) (ho : o.lookup path = .ok p) (hws : ∀ w ∈ ws, FileName w)
    (hlen : (under path ws).length < pathMax) (hn : n ∈ o.entries (p ++ ws))
    (ih : ∀ w, FileName w → Taken o path p (rmPath true force k (under path (ws ++ [w])) t).2.space) :
    Taken o path p (rmPath true force k (Rm.child (under path ws) n) t).2.space := by
  by_cases hstuck : Stuck (under path ws) n
  · cases hc : t.space.lookup (Rm.child (under path ws) n) with
    | error e => rwa [rmPath_error hc]
    | ok q =>
      have hpath : under path ws ≠ [] := List.append_ne_nil_of_left_ne_nil (Space.lookup_short ho).1 _
      obtain ⟨r, hr⟩ := lookup_of_child hpath hlen hc
      obtain rfl := lookup_below ho hws (h.shrinks.lookup hr)
      rwa [rmPath_child_stuck hr (List.ne_nil_of_mem (h.stuck hn hstuck)) (o.valid _ n hn) hstuck]
  · rw [child_under hlen hstuck]
    exact ih _ (fileName_lastPart (o.valid _ n hn) hstuck)

lemma rmPath_taken (ho : o.lookup path = .ok p) (h : Taken o path p s.space) (hws : ∀ w ∈ ws, FileName w) (k : ℕ) :
    Taken o path p (rmPath true force k (under path ws) s).2.space := by
  induction k generalizing ws s with
  | zero => exact h
  | succ k ih =>
    cases hq : s.space.lookup (under path ws) with
    | error e => rwa [rmPath_error hq]
    | ok q =>
      obtain rfl := lookup_below ho hws (h.shrinks.lookup hq)
      cases hd : s.space.isDir (p ++ ws) with
      | false =>
        rw [rmPath_file hq hd]
        cases hu : s.space.unlink (under path ws) with
        | none => exact h
        | some space => exact h.removeAt hq hu
      | true =>
        have hloop : Taken o path p
            (loop force k (under path ws) (p ++ ws) s).2.space :=
          removeAll_induction (P := fun t => Taken o path p t.space) h fun n hn t ht =>
            ht.child ho hws (Space.lookup_short hq).2 (h.shrinks.entries _ hn) fun _ hw =>
              ih ht (fileNames_concat hws hw)
        have hshrinks : Shrinks s.space (loop force k (under path ws) (p ++ ws) s).2.space := loop_shrinks
        rw [rmPath_dir hq hd]
        generalize loop force k (under path ws) (p ++ ws) s = x
          at hloop hshrinks
        rcases finish_cases (under path ws) x with ⟨he, -⟩ | ⟨space, hr, he⟩
        · rwa [he]
        · rw [he]
          exact hloop.removeAt (lookup_of_removeAt hshrinks hq hr) hr

lemma Taken.call (h : Taken o path p t.space) (ho : o.lookup path = .ok p) (hws : ∀ w ∈ ws, FileName w)
    (hlen : (under path ws).length < pathMax) (hn : n ∈ o.entries (p ++ ws)) (k : ℕ) :
    Taken o path p (rmPath true force k (Rm.child (under path ws) n) t).2.space :=
  h.child ho hws hlen hn fun _ hw => rmPath_taken ho h (fileNames_concat hws hw) k

end Taken

/-! What a run takes away completely -/

/-- All that is there, and below it, has a path of its own and may be removed. -/
def Clears (s : Space) (path : List UInt8) (p : Place) (us : List Name) : Prop :=
  ∀ vs, ∀ n ∈ s.entries (p ++ vs), us <+: vs ++ [n] →
    (under path (vs ++ [n])).length < pathMax ∧ s.refuses (p ++ vs ++ [n]) = false

lemma fileNames_of_entry {a : Space} {vs : List Name} (hn : n ∈ a.entries (p ++ vs)) : ∀ w ∈ vs ++ [n], FileName w := by
  intro w hw
  obtain ⟨us, rest, heq⟩ := List.append_of_mem hw
  have hpre : us ++ [w] <+: vs ++ [n] := ⟨rest, by rw [heq, List.append_assoc, List.singleton_append]⟩
  exact a.valid _ w (entry_above hn hpre)

lemma removeAll_some {P : Removal → Prop} (h : P s) (hrm : ∀ n ∈ ns, ∀ s, P s → P (rm (child path n) s).2)
    (hsome : (removeAll rm path ns status s).1 ≠ none) :
    ∀ n ∈ ns, ∃ a, P a ∧ (rm (child path n) a).1 ≠ none ∧ ∃ ms j, ms ⊆ ns ∧
      removeAll rm path ns status s = removeAll rm path ms j (rm (child path n) a).2 := by
  induction ns generalizing s status with
  | nil => exact fun n hn => absurd hn List.not_mem_nil
  | cons m ns ih =>
    intro n hn
    have hfirst := hrm m List.mem_cons_self s h
    rw [removeAll] at hsome ⊢
    generalize hx : rm (child path m) s = x at hfirst hsome
    obtain ⟨_ | j, t⟩ := x
    · exact absurd rfl hsome
    · rcases List.mem_cons.1 hn with rfl | hn
      · exact ⟨s, h, by rw [hx]; nofun, ns, _, List.subset_cons_self _ _, by rw [hx]⟩
      · obtain ⟨a, ha, hne, ms, j', hms, heq⟩ := ih hfirst (fun n hn => hrm n (List.mem_cons_of_mem _ hn)) hsome n hn
        exact ⟨a, ha, hne, ms, j', fun x hx => List.mem_cons_of_mem _ (hms hx), heq⟩

lemma finish_shrinks (path : List UInt8) (x : Option ℕ × Removal) : Shrinks x.2.space (finish path x).2.space := by
  rcases finish_cases path x with ⟨h, -⟩ | ⟨space, hr, h⟩
  · rw [h]
    exact Shrinks.refl _
  · rw [h]
    exact (Space.removeAt_some hr).1

lemma finish_none {x : Option ℕ × Removal} (h : x.1 = none) : (finish path x).1 = none := by
  obtain ⟨_ | j, t⟩ := x
  · rfl
  · exact nomatch h

section Cleared

variable {o : Space} {us vs : List Name}

lemma lookup_prefix {a : Space} (hp : a.lookup path = .ok p) (hn : n ∈ a.entries (p ++ vs))
    (hlen : (under path (vs ++ [n])).length < pathMax) (hus : us <+: vs ++ [n]) : a.lookup (under path us) = .ok (p ++ us) := by
  refine lookup_under hp ?_ fun ws m hm => entry_above hn (hm.trans hus)
  obtain ⟨rest, hrest⟩ := hus
  rw [← hrest, under_append_length] at hlen
  omega

lemma unlink_cleared {dir : Bool} {a : Space} (hp : a.lookup path = .ok p) (hn : n ∈ a.entries (p ++ vs))
    (hlen : (under path (vs ++ [n])).length < pathMax) (hdir : a.isDir (p ++ vs ++ [n]) = dir)
    (hr : a.refuses (p ++ vs ++ [n]) = false) (he : a.entries (p ++ vs ++ [n]) = []) :
    ∃ b, a.removeAt dir (under path (vs ++ [n])) = some b ∧ n ∉ b.entries (p ++ vs) := by
  have hq := lookup_prefix hp hn hlen (List.prefix_append vs [n])
  rw [under_concat] at hlen ⊢
  refine ⟨a.remove (p ++ vs) n he, ?_, ?_⟩
  · rw [← hdir]
    exact Space.removeAt_name hq hn (Space.isDir_of_entries (List.ne_nil_of_mem hn)) hlen hr he
  · rw [Space.entries_remove, update_self]
    exact (a.nodup _).not_mem_erase

lemma child_fit (h : (under path (ws ++ [n])).length < pathMax) : child (under path ws) n = under path (ws ++ [n]) := by
  rw [under_concat] at h ⊢
  exact List.take_of_length_le (by omega)

lemma cleared (ho : o.lookup path = .ok p) (h : Taken o path p s.space) (hn : n ∈ o.entries (p ++ vs))
    (hclear : Clears o path p (vs ++ [n])) (hus : us <+: vs ++ [n]) (hsome : (rmPath true force k (under path us) s).1 ≠ none)
    (hlive : (rmPath true force k (under path us) s).2.space.lookup path = .ok p) :
    n ∉ (rmPath true force k (under path us) s).2.space.entries (p ++ vs) := by
  induction k generalizing us vs n s with
  | zero => exact absurd rfl hsome
  | succ k ih =>
    intro hstay
    have hshrinks := rmPath_shrinks force (k + 1) (under path us) s
    have hin : n ∈ s.space.entries (p ++ vs) := hshrinks.entries _ hstay
    obtain ⟨hlen, hrefuses⟩ := hclear vs n hn (List.prefix_refl _)
    have hq := lookup_prefix (hshrinks.lookup hlive) hin hlen hus
    have hws : ∀ w ∈ us, FileName w := fun w hw => fileNames_of_entry hn w (hus.subset hw)
    cases hd : s.space.isDir (p ++ us) with
    | false =>
      rcases List.prefix_concat_iff.1 hus with rfl | ⟨rest, rfl⟩
      · rw [← List.append_assoc] at hd
        obtain ⟨b, hb, hgone⟩ := unlink_cleared (hshrinks.lookup hlive) hin hlen hd (h.shrinks.refuses ▸ hrefuses)
          (s.space.file _ hd)
        rw [rmPath_file hq (List.append_assoc .. ▸ hd), Space.unlink, hb] at hstay
        exact hgone hstay
      · rw [← List.append_assoc] at hin
        exact absurd (Space.isDir_of_entries (Space.entries_ne_nil_of_below hin)) (by simp [hd])
    | true =>
      rw [rmPath_dir hq hd] at hsome hlive hstay
      have hloop : (loop force k (under path us) (p ++ us) s).1 ≠
          none := fun hnone => hsome (finish_none hnone)
      -- a name that has a path of its own has its call in the loop
      have hvisit : ∀ m ∈ s.space.entries (p ++ us), (under path (us ++ [m])).length < pathMax →
          ∀ vs' n', n' ∈ o.entries (p ++ vs') → Clears o path p (vs' ++ [n']) → us ++ [m] <+: vs' ++ [n'] →
          n' ∉ (loop force k (under path us) (p ++ us) s).2.space.entries (p ++ vs') := by
        intro m hm hshort vs' n' hn' hclear' hus' hleft
        obtain ⟨a, ha, hne, ms, j, -, heq⟩ := removeAll_some (P := fun t => Taken o path p t.space)
          (s := s.reads (p ++ us)) h
          (fun x hx t ht => ht.call ho hws (Space.lookup_short hq).2 (h.shrinks.entries _ hx) k) hloop m hm
        rw [child_fit hshort] at hne heq
        rw [loop, heq] at hleft hlive
        have hrest : Shrinks (rmPath true force k (under path (us ++ [m])) a).2.space
            (removeAll (rmPath true force k) (under path us) ms j (rmPath true force k (under path (us ++ [m])) a).2).2.space :=
          removeAll_shrinks
        exact ih ha hn' hclear' hus' hne (hrest.lookup ((finish_shrinks _ _).lookup hlive)) (hrest.entries _ hleft)
      have hleft := (finish_shrinks (under path us) _).entries _ hstay
      rcases List.prefix_concat_iff.1 hus with rfl | ⟨rest, rfl⟩
      · -- the directory itself: all that was in it is gone
        have hdirs : Shrinks s.space (loop force k (under path (vs ++ [n])) (p ++ (vs ++ [n])) s).2.space := loop_shrinks
        have hempty : (loop force k (under path (vs ++ [n])) (p ++ (vs ++ [n])) s).2.space.entries (p ++ (vs ++ [n])) = [] := by
          refine List.eq_nil_iff_forall_not_mem.2 fun m hm => ?_
          have hm' : m ∈ s.space.entries (p ++ (vs ++ [n])) := hdirs.entries _ hm
          have hmo := h.shrinks.entries _ hm'
          exact hvisit m hm' (hclear _ m hmo (List.prefix_append _ _)).1 _ m hmo
            (fun vs' n' hn' hpre => hclear vs' n' hn' ((List.prefix_append _ _).trans hpre)) (List.prefix_refl _) hm
        generalize loop force k (under path (vs ++ [n])) (p ++ (vs ++ [n])) s = x at hloop hlive hstay hleft hempty hdirs
        obtain ⟨_ | j, t⟩ := x
        · exact hloop rfl
        rw [← List.append_assoc] at hempty hd
        obtain ⟨b, hb, hgone⟩ := unlink_cleared ((finish_shrinks _ _).lookup hlive) hleft hlen (hdirs.isDir ▸ hd)
          (hdirs.refuses ▸ h.shrinks.refuses ▸ hrefuses) hempty
        rw [finish, Space.rmdir, hb] at hstay
        exact hgone hstay
      · -- a directory on the way
        obtain ⟨z, zs, hz⟩ := List.exists_cons_of_ne_nil (List.concat_ne_nil n rest)
        have hpre : us ++ [z] <+: us ++ rest ++ [n] := ⟨zs, by
          rw [List.append_assoc, List.append_assoc, List.singleton_append, ← hz]⟩
        refine hvisit z (entry_above hin hpre) ?_ _ n hn hclear hpre hleft
        obtain ⟨rest', hrest'⟩ := hpre
        rw [← hrest', under_append_length] at hlen
        omega

end Cleared

/-! The runs that return -/

/-- The path leads through this place, by its name, on its way. -/
def Through (s : Space) (path : List UInt8) (p : Place) (us : List Name) : Prop :=
  us ≠ [] ∧ ∃ ns n d, ns ++ [n] <+: words slash path ∧ s.walk ns (s.start path) = .ok d ∧ n ∈ s.entries d ∧ d ++ [n] = p ++ us

/-- In this directory the call for `x` comes before every call for `y`. -/
def Precedes (s : Space) (path : List UInt8) (p : Place) (ws : List Name) (x y : Name) : Prop :=
  ∀ ns m ms, s.entries (p ++ ws) = ns ++ m :: ms → lastPart (under path ws) m = y →
    ∃ m' ∈ ns, lastPart (under path ws) m' = x

def Earlier (s : Space) (path : List UInt8) (p : Place) (us vs : List Name) : Prop :=
  ∃ ws x xs y ys, us = ws ++ x :: xs ∧ vs = ws ++ y :: ys ∧ Precedes s path p ws x y

/-- In every directory of the tree that has a path of its own, there is room for the names, or at least for so much
of each that it is another one. Else all is taken away before of a directory that the path leads through. -/
def Fits (s : Space) (path : List UInt8) (p : Place) : Prop :=
  ∀ ws, ∀ n ∈ s.entries (p ++ ws), (under path ws).length < pathMax → Stuck (under path ws) n →
    ∃ us, Through s path p us ∧ Clears s path p us ∧ Earlier s path p us (ws ++ [lastPart (under path ws) n])

section Reaches

variable {o : Space} {us vs : List Name} {x y : Name}

lemma Through.entry (h : Through o path p us) {b : Space} (hs : Shrinks o b) (hlive : b.lookup path = .ok p) :
    ∃ vs n, us = vs ++ [n] ∧ n ∈ o.entries (p ++ vs) ∧ n ∈ b.entries (p ++ vs) := by
  obtain ⟨hne, ns, n, d, ⟨rest, hpre⟩, hwalk, hn, hplace⟩ := h
  obtain ⟨vs, m, rfl⟩ := (List.eq_nil_or_concat' us).resolve_left hne
  rw [← List.append_assoc] at hplace
  obtain ⟨rfl, hm⟩ := List.append_inj' hplace rfl
  obtain rfl := List.singleton_inj.1 hm
  refine ⟨vs, n, rfl, hn, ?_⟩
  obtain ⟨hpath, hlen⟩ := Space.lookup_short hlive
  rw [Space.lookup, if_neg hpath, if_neg (Nat.not_le.2 hlen), ← hpre, List.append_assoc, Space.walk_append] at hlive
  cases hb : b.walk ns (b.start path) with
  | error e =>
    rw [hb] at hlive
    exact nomatch hlive
  | ok r =>
    obtain rfl : r = p ++ vs := by
      have hr := hs.walk hb
      rw [hs.start] at hr
      exact Except.ok.inj (hr.symm.trans hwalk)
    rw [hb] at hlive
    dsimp only at hlive
    have hd : b.isDir (p ++ vs) = true := hs.isDir ▸ Space.isDir_of_entries (List.ne_nil_of_mem hn)
    rw [Space.walk_append, Space.walk_name (o.valid _ n hn) hd] at hlive
    by_contra hgone
    rw [if_neg hgone] at hlive
    exact nomatch hlive

lemma before_of_sublist {es es' ns ns' : List Name} (hnodup : (es ++ m :: es').Nodup)
    (hsub : (ns ++ m :: ns').Sublist (es ++ m :: es')) (hn : n ∈ es) (hmem : n ∈ ns ++ m :: ns') : n ∈ ns := by
  obtain ⟨-, hright, hapart⟩ := List.nodup_append.1 hnodup
  rcases List.mem_append.1 hmem with h | h
  · exact h
  rcases List.mem_cons.1 h with rfl | h
  · exact absurd rfl (hapart n hn n List.mem_cons_self)
  · have hpair : [m, n].Sublist (es ++ m :: es') :=
      (List.Sublist.cons_cons m (List.singleton_sublist.2 h)).trans ((List.sublist_append_right ns _).trans hsub)
    obtain ⟨l, l', heq, hl, hl'⟩ := List.sublist_append_iff.1 hpair
    cases l with
    | nil =>
      rw [List.nil_append] at heq
      rw [← heq] at hl'
      exact absurd rfl (hapart n hn n (List.mem_cons_of_mem m (List.singleton_sublist.1 (List.cons_sublist_cons.1 hl'))))
    | cons c l =>
      obtain ⟨rfl, -⟩ := List.cons.inj heq
      exact absurd rfl (hapart m (hl.subset List.mem_cons_self) m List.mem_cons_self)

lemma lookup_of_none {c : List UInt8} (h : (rmPath true force (k + 1) c s).1 = none) : ∃ q, s.space.lookup c = .ok q := by
  cases hq : s.space.lookup c with
  | ok q => exact ⟨q, rfl⟩
  | error e =>
    rw [rmPath, hq] at h
    exact nomatch h

lemma removeAll_none {P : Removal → Prop} (h : P s) (hrm : ∀ n ∈ ns, ∀ s, P s → P (rmPath true force k (child path n) s).2)
    (hnone : (removeAll (rmPath true force k) path ns status s).1 = none) :
    ∃ ns₁ m ns₂ a, ns = ns₁ ++ m :: ns₂ ∧ P a ∧ Shrinks s.space a.space ∧ (rmPath true force k (child path m) a).1 = none ∧
      ∀ n ∈ ns₁, ∃ c, P c ∧ (rmPath true force k (child path n) c).1 ≠ none ∧
        Shrinks (rmPath true force k (child path n) c).2.space a.space := by
  induction ns generalizing s status with
  | nil => exact nomatch hnone
  | cons m ns ih =>
    have hfirst := hrm m List.mem_cons_self s h
    have hshrinks := rmPath_shrinks force k (child path m) s
    rw [removeAll] at hnone
    generalize hx : rmPath true force k (child path m) s = x at hfirst hshrinks hnone
    obtain ⟨_ | j, t⟩ := x
    · exact ⟨[], m, ns, s, rfl, h, Shrinks.refl _, by rw [hx], fun n hn => absurd hn List.not_mem_nil⟩
    · obtain ⟨ns₁, m', ns₂, a, rfl, ha, hs, hrun, hbefore⟩ :=
        ih hfirst (fun n hn => hrm n (List.mem_cons_of_mem _ hn)) hnone
      refine ⟨m :: ns₁, m', ns₂, a, rfl, ha, hshrinks.trans hs, hrun, fun n hn => ?_⟩
      rcases List.mem_cons.1 hn with rfl | hn
      · refine ⟨s, h, by rw [hx]; nofun, ?_⟩
        rw [hx]
        exact hs
      · exact hbefore n hn

lemma earlier_gone (ho : o.lookup path = .ok p) (h : Taken o path p s.space) {ns₁ ns₂ : List Name} {a : Space}
    (hlen : (under path ws).length < pathMax) (hsa : Shrinks s.space a)
    (hlive : a.lookup path = .ok p) (hsplit : s.space.entries (p ++ ws) = ns₁ ++ m :: ns₂)
    (hbefore : ∀ n ∈ ns₁, ∃ c, Taken o path p c.space ∧ (rmPath true force k (child (under path ws) n) c).1 ≠ none ∧
      Shrinks (rmPath true force k (child (under path ws) n) c).2.space a)
    (hn : n ∈ o.entries (p ++ vs)) (hclear : Clears o path p (vs ++ [n])) (hx : ws ++ [x] <+: vs ++ [n])
    (hprec : Precedes o path p ws x (lastPart (under path ws) m)) : n ∉ a.entries (p ++ vs) := by
  intro hstay
  have hmem : m ∈ o.entries (p ++ ws) := h.shrinks.entries _ (by rw [hsplit]; exact List.mem_append_right _ List.mem_cons_self)
  obtain ⟨es, es', hes⟩ := List.append_of_mem hmem
  obtain ⟨m', hm', hlast⟩ := hprec es m es' hes rfl
  have hxin : x ∈ s.space.entries (p ++ ws) := entry_above (hsa.entries _ hstay) hx
  have hname : FileName x := s.space.valid _ x hxin
  by_cases hin : m' ∈ s.space.entries (p ++ ws)
  · have hfirst : m' ∈ ns₁ := before_of_sublist (hes ▸ o.nodup _) (by
      rw [← hsplit, ← hes]
      exact h.shrinks.sublist _) hm' (hsplit ▸ hin)
    obtain ⟨c, hc, hsome, hca⟩ := hbefore m' hfirst
    have hstuck : ¬ Stuck (under path ws) m' := by
      rw [Stuck, hlast]
      rintro (h | h | h)
      · exact hname.word.1 h
      · exact hname.notDot h
      · exact hname.notDotDot h
    rw [child_under hlen hstuck, hlast] at hsome hca
    exact cleared ho hc hn hclear hx hsome (hca.lookup hlive) (hca.entries _ hstay)
  · -- what is gone was not cut off
    have hmo : m' ∈ o.entries (p ++ ws) := by
      rw [hes]
      exact List.mem_append_left _ hm'
    have hshort := (h.gone ws m' hmo hin).1
    rw [under_concat] at hshort
    rw [lastPart_of_fit hshort] at hlast
    exact hin (hlast ▸ hxin)


lemma finish_returns {x : Option ℕ × Removal} (h : x.1 ≠ none) : (finish path x).1 ≠ none := by
  obtain ⟨_ | j, t⟩ := x
  · exact absurd rfl h
  · rw [finish]
    cases t.space.rmdir path with
    | none => exact nofun
    | some space => exact nofun

lemma rmPath_reaches (ho : o.lookup path = .ok p) (h : Taken o path p s.space) (hws : ∀ w ∈ ws, FileName w)
    (hlen : (under path ws).length < pathMax) (hk : pathMax < (under path ws).length + k)
    (hnone : (rmPath true force k (under path ws) s).1 = none) :
    ∃ vs n b, ws <+: vs ∧ n ∈ o.entries (p ++ vs) ∧ (under path vs).length < pathMax ∧ Stuck (under path vs) n ∧
      Shrinks s.space b ∧ b.lookup path = .ok p ∧ ∀ us m cs x xs y ys, m ∈ o.entries (p ++ us) →
        Clears o path p (us ++ [m]) → ws <+: cs → us ++ [m] = cs ++ x :: xs →
          vs ++ [lastPart (under path vs) n] = cs ++ y :: ys → Precedes o path p cs x y → m ∉ b.entries (p ++ us) := by
  induction k generalizing ws s with
  | zero => omega
  | succ k ih =>
    obtain ⟨q, hq⟩ := lookup_of_none hnone
    obtain rfl := lookup_below ho hws (h.shrinks.lookup hq)
    cases hd : s.space.isDir (p ++ ws) with
    | false =>
      rw [rmPath_file hq hd] at hnone
      cases hu : s.space.unlink (under path ws) with
      | none | some space =>
        rw [hu] at hnone
        exact nomatch hnone
    | true =>
      rw [rmPath_dir hq hd] at hnone
      have hloop : (loop force k (under path ws) (p ++ ws) s).1 =
          none := by
        by_contra hsome
        exact finish_returns hsome hnone
      obtain ⟨ns₁, m, ns₂, a, hsplit, ha, hsa, hrun, hbefore⟩ := removeAll_none (P := fun t => Taken o path p t.space)
        (s := s.reads (p ++ ws)) h (fun x hx t ht => ht.call ho hws hlen (h.shrinks.entries _ hx) k) hloop
      have hm : m ∈ o.entries (p ++ ws) :=
        h.shrinks.entries _ (by rw [hsplit]; exact List.mem_append_right _ List.mem_cons_self)
      have hlive : a.space.lookup path = .ok p := by
        obtain ⟨j, rfl⟩ : ∃ j, k = j + 1 := Nat.exists_eq_succ_of_ne_zero (by omega)
        obtain ⟨q, hq⟩ := lookup_of_none hrun
        have hpath := (Space.lookup_short ho).1
        obtain ⟨r, hr⟩ := lookup_of_child (List.append_ne_nil_of_left_ne_nil hpath _) hlen hq
        obtain ⟨r', hr'⟩ := lookup_of_under hpath hr
        rw [hr', Except.ok.inj ((ha.shrinks.lookup hr').symm.trans ho)]
      have hgone : ∀ us n x xs, n ∈ o.entries (p ++ us) → Clears o path p (us ++ [n]) → us ++ [n] = ws ++ x :: xs →
          Precedes o path p ws x (lastPart (under path ws) m) → n ∉ a.space.entries (p ++ us) :=
        fun us n x xs hn hclear heq hprec =>
          earlier_gone ho h hlen hsa hlive hsplit hbefore hn hclear ⟨xs, by rw [heq, List.append_assoc]; rfl⟩ hprec
      by_cases hstuck : Stuck (under path ws) m
      · refine ⟨ws, m, a.space, List.prefix_refl _, hm, hlen, hstuck, hsa, hlive, ?_⟩
        rintro us n cs x xs y ys hn hclear ⟨rest, rfl⟩ heq heq' hprec
        rw [List.append_assoc, List.append_cancel_left_eq] at heq'
        cases rest with
        | nil =>
          obtain ⟨rfl, -⟩ := List.cons.inj heq'
          rw [List.append_nil] at heq hprec
          exact hgone us n x xs hn hclear heq hprec
        | cons c rest => exact absurd (List.cons.inj heq').2.symm (by simp)
      · have hname := fileName_lastPart (o.valid _ m hm) hstuck
        have hchild := child_under hlen hstuck
        have hlonger : (under path ws).length + 2 ≤ (under path (ws ++ [lastPart (under path ws) m])).length := by
          have hpos := List.length_pos_of_ne_nil hname.word.1
          rw [under_concat, List.length_append, List.length_cons]
          omega
        have hshort : (child (under path ws) m).length < pathMax := length_child_lt
        rw [hchild] at hrun hshort
        obtain ⟨vs, n, b, hvs, hn, hvlen, hvstuck, hab, hblive, hrest⟩ := ih ha (fileNames_concat hws hname) hshort
          (by omega) hrun
        refine ⟨vs, n, b, (List.prefix_append _ _).trans hvs, hn, hvlen, hvstuck, hsa.trans hab, hblive, ?_⟩
        obtain ⟨rest', rfl⟩ := hvs
        rintro us n' cs x xs y ys hn' hclear ⟨rest, rfl⟩ heq heq' hprec
        generalize hz : lastPart (under path (ws ++ [lastPart (under path ws) m] ++ rest')) n = z at heq'
        simp only [List.append_assoc, List.append_cancel_left_eq, List.singleton_append] at heq'
        cases rest with
        | nil =>
          obtain ⟨rfl, -⟩ := List.cons.inj heq'
          rw [List.append_nil] at heq hprec
          exact fun hstay => hgone us n' x xs hn' hclear heq hprec (hab.entries _ hstay)
        | cons c rest =>
          obtain ⟨rfl, htail : rest' ++ [z] = rest ++ y :: ys⟩ := List.cons.inj heq'
          refine hrest us n' _ x xs y ys hn' hclear ⟨rest, ?_⟩ heq ?_ hprec
          · rw [List.append_assoc]
            rfl
          · rw [hz, List.append_assoc, htail]
            simp only [List.append_assoc, List.cons_append, List.nil_append]

lemma rmPath_returns (ho : o.lookup path = .ok p) (hfits : Fits o path p) (k : ℕ) :
    (rmPath true force (pathMax + 1 + k) path { space := o }).1 ≠ none := by
  intro hnone
  have hlen := (Space.lookup_short ho).2
  obtain ⟨vs, n, b, -, hn, hvlen, hstuck, hs, hlive, hgone⟩ := rmPath_reaches (s := { space := o })
    (k := pathMax + 1 + k) ho (Taken.refl o path p)
    (fun w (hw : w ∈ ([] : List Name)) => absurd hw List.not_mem_nil) (by rwa [under_nil])
    (by rw [under_nil]; omega) (by rwa [under_nil])
  obtain ⟨us, hthrough, hclear, ws, x, xs, y, ys, hus, hvs, hprec⟩ := hfits vs n hn hvlen hstuck
  obtain ⟨us', m, rfl, hm, hm'⟩ := hthrough.entry hs hlive
  exact hgone us' m ws x xs y ys hm hclear List.nil_prefix hus hvs hprec hm'

end Reaches

/-! The runs that do not return -/

lemma removeAll_diverges {P : Removal → Prop} {l l' : List Name} (hs : P s)
    (hbefore : ∀ n ∈ l, ∀ s, P s → (rm (child path n) s).1 = none ∨ P (rm (child path n) s).2)
    (hend : ∀ s, P s → (rm (child path m) s).1 = none) : (removeAll rm path (l ++ m :: l') status s).1 = none := by
  induction l generalizing s status with
  | nil =>
    have hcall := hend s hs
    rw [List.nil_append, removeAll]
    generalize rm (child path m) s = x at hcall
    obtain ⟨_ | j, t⟩ := x
    · rfl
    · exact nomatch hcall
  | cons n ns ih =>
    have hfirst := hbefore n List.mem_cons_self s hs
    rw [List.cons_append, removeAll]
    generalize rm (child path n) s = x at hfirst
    obtain ⟨_ | j, t⟩ := x
    · rfl
    · rcases hfirst with hnone | ht
      · exact nomatch hnone
      · exact ih ht fun n hn => hbefore n (List.mem_cons_of_mem _ hn)

lemma rmPath_full (hc : path.length + 1 = pathMax) (hp : s.space.lookup path = .ok p) (he : s.space.entries p ≠ [])
    (k : ℕ) : (rmPath true force k path s).1 = none := by
  induction k generalizing s with
  | zero => rfl
  | succ k ih =>
    obtain ⟨n, ns, hn⟩ := List.exists_cons_of_ne_nil he
    rw [rmPath_dir hp (Space.isDir_of_entries he), loop, hn]
    refine finish_none (removeAll_diverges (P := fun t => t.space = s.space) (l := []) rfl
      (fun m hm => absurd hm List.not_mem_nil) fun t ht => ?_)
    rw [child_full hc]
    exact ih (by rw [ht]; exact hp) (by rw [ht]; exact he)

lemma rmPath_stuck (hp : s.space.lookup path = .ok p) (he : s.space.entries p ≠ []) (hn : FileName n)
    (h : Stuck path n) (k : ℕ) : (rmPath true force k (child path n) s).1 = none := by
  rcases lookup_child_stuck hp (Space.isDir_of_entries he) h with hc | ⟨hc, -⟩
  · exact rmPath_full (h.length_child hn) hc he k
  · exact rmPath_full (h.length_child hn) hc (entries_up he) k

lemma walk_lost {a b : Space} (h : Shrinks a b) (hq : a.walk ns p = .ok q) (hlost : b.walk ns p ≠ .ok q) :
    ∃ us n d, us ++ [n] <+: ns ∧ a.walk us p = .ok d ∧ n ∈ a.entries d ∧ n ∉ b.entries d := by
  induction ns generalizing p with
  | nil => exact absurd hq hlost
  | cons n ns ih =>
    rw [Space.walk] at hq hlost
    split_ifs at hq hlost with hlong
    cases hstep : a.step p n with
    | error e =>
      rw [hstep] at hq
      exact nomatch hq
    | ok r =>
      rw [hstep] at hq
      by_cases hb : b.step p n = .ok r
      · rw [hb] at hlost
        obtain ⟨us, m, d, hus, hwalk, hm, hm'⟩ := ih hq hlost
        refine ⟨n :: us, m, d, (List.prefix_append_right_inj [n]).2 hus, ?_, hm, hm'⟩
        rw [Space.walk, if_neg hlong, hstep]
        exact hwalk
      · refine ⟨[], n, p, List.prefix_append [n] ns, rfl, ?_⟩
        unfold Space.step Space.up at hstep hb
        rw [h.isDir, h.stacked] at hb
        split_ifs at hstep hb
        · exact absurd hstep hb
        · exact absurd hstep hb
        · exact absurd hstep hb
        · exact absurd hstep hb
        · exact ⟨‹n ∈ a.entries p›, ‹n ∉ b.entries p›⟩

section Diverges

variable {o a b : Space} {us vs : List Name} {x y : Name}

lemma Taken.clears (h : Taken o path p b) (hn : n ∉ b.entries (p ++ us)) : Clears o path p (us ++ [n]) :=
  fun vs m hm hpre => h.gone vs m hm fun hstay => hn (entry_above hstay hpre)

lemma Taken.lost (ws : List Name) (ha : Taken o path p a) (hb : Taken o path p b) (hab : Shrinks a b)
    (hlive : a.lookup path = .ok p) (hlost : b.lookup path ≠ .ok p) (hinside : ∀ q, Removed a b q → p ++ (ws ++ [x]) <+: q) :
    ∃ xs, Through o path p (ws ++ x :: xs) ∧ Clears o path p (ws ++ x :: xs) := by
  obtain ⟨hpath, hlen⟩ := Space.lookup_short hlive
  rw [Space.lookup, if_neg hpath, if_neg (Nat.not_le.2 hlen)] at hlive hlost
  rw [hab.start] at hlost
  obtain ⟨ns, n, d, hns, hwalk, hn, hn'⟩ := walk_lost hab hlive hlost
  obtain ⟨xs, hxs⟩ := hinside _ ⟨d, n, rfl, hn, hn'⟩
  have hus : p ++ (ws ++ x :: xs) = d ++ [n] := by
    rw [← hxs]
    simp only [List.append_assoc, List.cons_append, List.nil_append]
  obtain ⟨us, m, heq⟩ := (List.eq_nil_or_concat' (ws ++ x :: xs)).resolve_left
    (List.append_ne_nil_of_right_ne_nil _ (List.cons_ne_nil _ _))
  refine ⟨xs, ⟨List.append_ne_nil_of_right_ne_nil _ (List.cons_ne_nil _ _), ns, n, d, hns, ?_, ha.shrinks.entries _ hn,
    hus.symm⟩, ?_⟩
  · rw [← ha.shrinks.start]
    exact ha.shrinks.walk hwalk
  · rw [heq] at hus ⊢
    rw [← List.append_assoc] at hus
    obtain ⟨rfl, hm⟩ := List.append_inj' hus rfl
    obtain rfl := List.singleton_inj.1 hm
    exact hb.clears hn'

lemma Taken.precedes (h : Taken o path p a) {ns₁ ns₂ : List Name} (hsplit : a.entries (p ++ ws) = ns₁ ++ m :: ns₂)
    (hn : n ∈ ns₁) (hfirst : ∀ n ∈ ns₁, lastPart (under path ws) n ≠ y)
    (hkept : ∀ n ∈ o.entries (p ++ ws), lastPart (under path ws) n = y → n ∈ a.entries (p ++ ws)) :
    Precedes o path p ws (lastPart (under path ws) n) y := by
  intro es e es' hes he
  refine ⟨n, ?_, rfl⟩
  by_contra hnot
  obtain ⟨l, l', rfl⟩ := List.append_of_mem hn
  have hmem : n ∈ a.entries (p ++ ws) := hsplit ▸ List.mem_append_left _ hn
  have hno : n ∈ es ++ e :: es' := hes ▸ h.shrinks.entries _ hmem
  have hne : n ≠ e := fun hne => hfirst n hn (hne ▸ he)
  have hlater : n ∈ es' := (List.mem_cons.1 ((List.mem_append.1 hno).resolve_left hnot)).resolve_left hne
  obtain ⟨r, r', rfl⟩ := List.append_of_mem hlater
  have hsub : (l ++ n :: (l' ++ m :: ns₂)).Sublist (es ++ e :: r ++ n :: r') := by
    simpa only [hsplit, hes, List.append_assoc, List.cons_append] using h.shrinks.sublist (p ++ ws)
  have hnodup : (es ++ e :: r ++ n :: r').Nodup := by
    simpa only [hes, List.append_assoc, List.cons_append] using o.nodup (p ++ ws)
  have hstay : e ∈ l ++ n :: (l' ++ m :: ns₂) := by
    have := hkept e (hes ▸ List.mem_append_right _ List.mem_cons_self) he
    rwa [hsplit, List.append_assoc, List.cons_append] at this
  have hbefore : e ∈ l := before_of_sublist hnodup hsub (List.mem_append_right _ List.mem_cons_self) hstay
  exact hfirst e (List.mem_append_left _ hbefore) he

/-- Where a run never ends: a name that is stuck, and nothing that the path leads through goes before its turn. -/
structure Trap (o : Space) (path : List UInt8) (p : Place) (vs : List Name) (n : Name) : Prop where
  lookup : o.lookup path = .ok p
  entry : n ∈ o.entries (p ++ vs)
  short : (under path vs).length < pathMax
  stuck : Stuck (under path vs) n
  lasts : ∀ us, Through o path p us → Clears o path p us →
    ¬ Earlier o path p us (vs ++ [lastPart (under path vs) n])

namespace Trap

lemma short_prefix (h : Trap o path p vs n) (hws : ws <+: vs) : (under path ws).length < pathMax := by
  obtain ⟨rest, rfl⟩ := hws
  have hshort := h.short
  rw [under_append_length] at hshort
  omega

lemma reach (h : Trap o path p vs n) (hws : ws <+: vs) (ha : Taken o path p a) (hlive : a.lookup path = .ok p) :
    a.lookup (under path ws) = .ok (p ++ ws) ∧ a.entries (p ++ ws) ≠ [] := by
  have hin := ha.stuck h.entry h.stuck
  refine ⟨lookup_under hlive (h.short_prefix hws) fun us m hm =>
    entry_above hin (hm.trans (hws.trans (List.prefix_append _ _))), ?_⟩
  obtain ⟨rest, rfl⟩ := hws
  rw [← List.append_assoc] at hin
  exact Space.entries_ne_nil_of_below hin

lemma next (h : Trap o path p vs n) (hws : ws <+: vs) (ha : Taken o path p a) :
    ∃ y ys, vs ++ [lastPart (under path vs) n] = ws ++ y :: ys ∧
      (∃ m ∈ a.entries (p ++ ws), lastPart (under path ws) m = y) ∧
      (∀ m ∈ o.entries (p ++ ws), lastPart (under path ws) m = y → m ∈ a.entries (p ++ ws)) ∧
      ∀ m, lastPart (under path ws) m = y → ¬ Stuck (under path ws) m → ws ++ [y] <+: vs := by
  have hin := ha.stuck h.entry h.stuck
  obtain ⟨rest, rfl⟩ := hws
  cases rest with
  | nil =>
    have hstuck := h.stuck
    rw [List.append_nil] at hin hstuck ⊢
    refine ⟨_, [], rfl, ⟨n, hin, rfl⟩, fun m hm heq => ?_, fun m heq hnot => ?_⟩
    · exact ha.stuck hm (by rwa [Stuck, heq])
    · exact absurd (by rwa [Stuck, heq]) hnot
  | cons w rest =>
    have hpre : ws ++ [w] <+: ws ++ w :: rest := ⟨rest, by rw [List.append_assoc, List.singleton_append]⟩
    have hw : w ∈ a.entries (p ++ ws) := entry_above hin (hpre.trans (List.prefix_append _ _))
    have hshort := h.short_prefix hpre
    rw [under_concat] at hshort
    refine ⟨w, _, List.append_assoc .., ⟨w, hw, lastPart_of_fit hshort⟩, fun m hm heq => ?_, fun m _ _ => hpre⟩
    by_contra hgone
    have hfit := (ha.gone ws m hm hgone).1
    rw [under_concat] at hfit
    rw [lastPart_of_fit hfit] at heq
    exact hgone (heq ▸ hw)

end Trap

lemma rmPath_diverges (force : Bool) (h : Trap o path p vs n) (hs : Taken o path p s.space)
    (hlive : s.space.lookup path = .ok p) (hws : ws <+: vs) (k : ℕ) : (rmPath true force k (under path ws) s).1 = none := by
  induction k generalizing ws s with
  | zero => rfl
  | succ k ih =>
    obtain ⟨hq, he⟩ := h.reach hws hs hlive
    have hlen := h.short_prefix hws
    have hnames : ∀ w ∈ ws, FileName w := fun w hw => fileNames_of_entry h.entry w
      (List.mem_append_left _ (hws.subset hw))
    obtain ⟨y, ys, heq, ⟨m₀, hm₀, hy₀⟩, hkept, hon⟩ := h.next hws hs
    -- the first call that leads on to the name that is stuck
    obtain ⟨m, hfind⟩ := Option.isSome_iff_exists.1 (List.find?_isSome
      (p := fun m => decide (lastPart (under path ws) m = y)).2 ⟨m₀, hm₀, decide_eq_true hy₀⟩)
    obtain ⟨hy, ns₁, ns₂, hsplit, hfirst⟩ := List.find?_eq_some_iff_append.1 hfind
    have hfirst' : ∀ n ∈ ns₁, lastPart (under path ws) n ≠ y := by
      intro n hn
      have := hfirst n hn
      simpa using this
    rw [rmPath_dir hq (Space.isDir_of_entries he), loop, hsplit]
    refine finish_none (removeAll_diverges (P := fun t => Taken o path p t.space ∧ t.space.lookup path = .ok p)
      ⟨hs, hlive⟩ (fun n' hn' t ⟨ht, htlive⟩ => ?_) fun t ⟨ht, htlive⟩ => ?_)
    · have hmem : n' ∈ s.space.entries (p ++ ws) := hsplit ▸ List.mem_append_left _ hn'
      have hmo := hs.shrinks.entries _ hmem
      obtain ⟨htq, hte⟩ := h.reach hws ht htlive
      by_cases hstuck : Stuck (under path ws) n'
      · exact .inl (rmPath_stuck htq hte (o.valid _ n' hmo) hstuck k)
      have hcall : Taken o path p (rmPath true force k (child (under path ws) n') t).2.space := ht.call h.lookup hnames hlen hmo k
      refine .inr ⟨hcall, ?_⟩
      by_contra hlost
      have hname := fileName_lastPart (o.valid _ n' hmo) hstuck
      obtain ⟨xs, hthrough, hclear⟩ := ht.lost ws hcall (rmPath_shrinks force k _ t) htlive hlost
        (x := lastPart (under path ws) n') fun q hq => by
          rw [child_under hlen hstuck] at hq
          cases hr : t.space.lookup (under path (ws ++ [lastPart (under path ws) n'])) with
          | error e =>
            rw [rmPath_error hr] at hq
            exact absurd hq not_removed_self
          | ok r =>
            obtain rfl := lookup_below htlive (fileNames_concat hnames hname) hr
            exact (rmPath_within k _ t _ hr).1.inside q hq
      exact h.lasts _ hthrough hclear ⟨ws, _, xs, y, ys, rfl, heq, hs.precedes hsplit hn' hfirst' hkept⟩
    · obtain ⟨htq, hte⟩ := h.reach hws ht htlive
      have hmo : m ∈ o.entries (p ++ ws) :=
        hs.shrinks.entries _ (by rw [hsplit]; exact List.mem_append_right _ List.mem_cons_self)
      by_cases hstuck : Stuck (under path ws) m
      · exact rmPath_stuck htq hte (o.valid _ m hmo) hstuck k
      · have hym : lastPart (under path ws) m = y := of_decide_eq_true hy
        rw [child_under hlen hstuck, hym]
        exact ih ht htlive (hon m hym hstuck)

end Diverges
/-! What is expected of `rm -r` -/

/-- It returns, removes nothing but the tree, and below its place nothing but what it has read the name of; when it
returns 0 the tree is gone. -/
structure Meets (force : Bool) (s : Space) (path : List UInt8) (p : Place) : Prop where
  returns : ∃ k status, (rmPath true force k path { space := s }).1 = some status
  inside : ∀ k q, Removed s (rmPath true force k path { space := s }).2.space q → p <+: q
  read : ∀ k q, Removed s (rmPath true force k path { space := s }).2.space q →
    q = p ∨ q ∈ (rmPath true force k path { space := s }).2.seen
  gone : ∀ k, (rmPath true force k path { space := s }).1 = some 0 →
    Gone (rmPath true force k path { space := s }).2.space p

theorem rm_meets_iff {s : Space} (hp : s.lookup path = .ok p) : Meets force s path p ↔ Fits s path p := by
  constructor
  · intro hmeets vs n hn hlen hstuck
    obtain ⟨k, status, hk⟩ := hmeets.returns
    by_contra hnot
    have htrap : Trap s path p vs n :=
      ⟨hp, hn, hlen, hstuck, fun us hthrough hclear hearlier => hnot ⟨us, hthrough, hclear, hearlier⟩⟩
    have hnone := rmPath_diverges force (s := { space := s }) htrap (Taken.refl s path p) hp
      List.nil_prefix k
    rw [under_nil, hk] at hnone
    exact nomatch hnone
  · intro hfits
    have hwithin : ∀ k, Within p { space := s } (rmPath true force k path { space := s }).2 ∧
        ((rmPath true force k path { space := s }).1 = some 0 →
          Gone (rmPath true force k path { space := s }).2.space p) := fun k => rmPath_within k path _ p hp
    exact ⟨⟨pathMax + 1, Option.ne_none_iff_exists'.1 (rmPath_returns hp hfits 0)⟩, fun k => (hwithin k).1.inside,
      fun k => (hwithin k).1.read, fun k => (hwithin k).2⟩

end Runs

def smallSpace : Space where
  isDir p := p = [] ∨ p = [[97]]
  entries p := if p = [] then [[97]] else if p = [[97]] then [[98]] else []
  cwd := []
  stacked _ := false
  refuses _ := false
  root := rfl
  valid d n hn := by
    split_ifs at hn
    · rw [List.mem_singleton.1 hn]
      exact ⟨⟨by decide, by decide⟩, by decide, by decide, by decide⟩
    · rw [List.mem_singleton.1 hn]
      exact ⟨⟨by decide, by decide⟩, by decide, by decide, by decide⟩
    · exact absurd hn List.not_mem_nil
  nodup d := by split_ifs <;> decide
  file d hd := by
    have hd := not_or.1 (of_decide_eq_false hd)
    rw [if_neg hd.1, if_neg hd.2]
  linked d n hn := by
    have hne : d ++ [n] ≠ [] := by simp
    rw [if_neg hne] at hn
    split_ifs at hn with hone
    · obtain ⟨rfl, hn⟩ := List.append_inj' (show d ++ [n] = [] ++ [[97]] from hone) rfl
      exact hn ▸ List.mem_cons_self
    · exact absurd rfl hn

lemma smallSpace_entries {p : Place} {n : Name} (h : n ∈ smallSpace.entries p) : p = [] ∧ n = [97] ∨ p = [[97]] ∧ n = [98] := by
  change n ∈ (if p = [] then [[97]] else if p = [[97]] then [[98]] else []) at h
  split_ifs at h with h₁ h₂
  · exact .inl ⟨h₁, List.mem_singleton.1 h⟩
  · exact .inr ⟨h₂, List.mem_singleton.1 h⟩
  · exact absurd h List.not_mem_nil

theorem rm_meets_iff_small : Meets false smallSpace [47, 97] [[97]] := by
  have hlookup : smallSpace.lookup [47, 97] = .ok [[97]] := rfl
  refine (rm_meets_iff hlookup).2 fun ws n hn _ => ?_
  rcases smallSpace_entries hn with ⟨h, -⟩ | ⟨h, rfl⟩
  · cases h
  · obtain rfl : ws = [] := by simpa using h
    rintro (h | h | h) <;> cases h

def longPath : List UInt8 := List.replicate 1021 slash ++ [97]

lemma words_replicate (k : ℕ) : words slash (List.replicate k slash ++ [97]) = [[97]] := by
  induction k with
  | zero => rfl
  | succ k ih => rw [List.replicate_succ, List.cons_append, words_sep, ih]

lemma length_longPath : longPath.length = 1022 := by
  rw [longPath, List.length_append, List.length_replicate, List.length_singleton]

lemma smallSpace_trap : Trap smallSpace longPath [[97]] [] [98] where
  lookup := by
    have hne : longPath ≠ [] := List.append_ne_nil_of_right_ne_nil _ (List.cons_ne_nil _ _)
    rw [Space.lookup, if_neg hne, if_neg (by rw [length_longPath]; decide), longPath, words_replicate]
    rfl
  entry := List.mem_singleton_self _
  short := by
    rw [under_nil, length_longPath]
    decide
  stuck := by
    rw [under_nil, Stuck, lastPart, length_longPath]
    exact .inl rfl
  lasts us hthrough := by
    obtain ⟨hne, ns, n, d, hpre, hwalk, -, hplace⟩ := hthrough
    rw [longPath, words_replicate] at hpre
    rcases List.prefix_concat_iff.1 (show ns ++ [n] <+: [] ++ [[97]] from hpre) with heq | hpre
    · -- the only name on the way is that of the place
      obtain ⟨rfl, hn⟩ := List.append_inj' heq rfl
      obtain rfl := List.singleton_inj.1 hn
      cases hwalk
      exact absurd ((List.append_right_inj [[97]]).1 hplace).symm hne
    · exact absurd (List.prefix_nil.1 hpre) (List.concat_ne_nil _ _)

theorem not_rm_meets : smallSpace.lookup longPath = .ok [[97]] ∧ ¬ Meets false smallSpace longPath [[97]] ∧
    ∀ k, (rmPath true false k longPath { space := smallSpace }).1 = none := by
  have hnone : ∀ k, (rmPath true false k longPath { space := smallSpace }).1 = none := fun k => by
    have := rmPath_diverges false (s := { space := smallSpace }) smallSpace_trap
      (Taken.refl smallSpace longPath [[97]]) smallSpace_trap.lookup List.nil_prefix k
    rwa [under_nil] at this
  refine ⟨smallSpace_trap.lookup, fun h => ?_, hnone⟩
  obtain ⟨k, status, hk⟩ := h.returns
  rw [hnone k] at hk
  exact nomatch hk

end MyOS.User.Rm
