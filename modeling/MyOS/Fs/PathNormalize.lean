import MyOS.Library.Bytes
import MyOS.Library.Words

/-! `path_normalize`: the components of a path are put on a stack that is kept in the result. -/

namespace MyOS.Fs

open Library Words Function

def slash : UInt8 := 47
def dot : UInt8 := 46

def pathMax : ℕ := 1024

structure CString where
  bytes : List UInt8
  noZero : 0 ∉ bytes

def CString.At (s : CString) (mem : ℕ → UInt8) : Prop :=
  (∀ i (h : i < s.bytes.length), mem i = s.bytes[i]) ∧ mem s.bytes.length = 0

def CString.cut (s : CString) (size : ℕ) : CString where
  bytes := s.bytes.take (size - 1)
  noZero h := s.noZero (List.mem_of_mem_take h)

def CString.join (s t : CString) : CString where
  bytes := s.bytes ++ slash :: t.bytes
  noZero h := by
    rcases List.mem_append.1 h with h | h
    · exact s.noZero h
    · exact t.noZero ((List.mem_cons.1 h).resolve_left (by decide))

structure OutBuffer where
  mem : ℕ → UInt8
  len : ℕ

def backToSlash (mem : ℕ → UInt8) : ℕ → ℕ
  | 0 => 0
  | len + 1 => if mem len = slash then len + 1 else backToSlash mem len

namespace OutBuffer

variable (o : OutBuffer)

def pop : OutBuffer :=
  let len := backToSlash o.mem o.len - 1
  { mem := update o.mem len 0, len }

def push (w : List UInt8) : OutBuffer :=
  let mem := Bytes.store (update o.mem o.len slash) (o.len + 1) w
  { mem := update mem (o.len + 1 + w.length) 0, len := o.len + 1 + w.length }

end OutBuffer

/-- The loop of `path_normalize`; the counter is at least the length of what is left of the path.
Where the result is `false` the call returns `-ENAMETOOLONG`. -/
def normalizeLoop (size : ℕ) : ℕ → List UInt8 → OutBuffer → Bool × OutBuffer
  | 0, _, o => (true, o)
  | n + 1, s, o =>
    match s.dropWhile (· == slash) with
    | [] => (true, o)
    | c :: r =>
      let w := (c :: r).takeWhile (· != slash)
      let rest := (c :: r).dropWhile (· != slash)
      if w = [dot] then normalizeLoop size n rest o
      else if w = [dot, dot] then normalizeLoop size n rest o.pop
      else if size < o.len + 1 + w.length + 1 then (false, o)
      else normalizeLoop size n rest (o.push w)

def pathNormalize (cwd path : CString) (mem : ℕ → UInt8) (size : ℕ) : Bool × (ℕ → UInt8) :=
  let buf := if path.bytes.head? = some slash then path.cut (pathMax * 2)
    else (cwd.join path).cut (pathMax * 2)
  let r := normalizeLoop size buf.bytes.length buf.bytes { mem := update mem 0 0, len := 0 }
  if r.1 = true ∧ r.2.len = 0 then
    (true, update (update r.2.mem 0 slash) 1 0)
  else (r.1, r.2.mem)

def foldStep (stack : List (List UInt8)) (w : List UInt8) : List (List UInt8) :=
  if w = [dot] then stack else if w = [dot, dot] then stack.dropLast else stack ++ [w]

def foldPath (ws : List (List UInt8)) : List (List UInt8) := ws.foldl foldStep []

def render (stack : List (List UInt8)) : List UInt8 :=
  if stack = [] then [slash] else prefixed slash stack

def PlainName (w : List UInt8) : Prop := Word slash w ∧ w ≠ [dot] ∧ w ≠ [dot, dot]

def CString.Canonical (s : CString) : Prop :=
  ∃ stack, (∀ w ∈ stack, PlainName w) ∧ s.bytes = render stack

def fullPath (cwd path : CString) : CString :=
  if path.bytes.head? = some slash then path else cwd.join path

def FitsIn (size : ℕ) (stack : List (List UInt8)) : Prop := (render stack).length + 1 ≤ size

section Loop

variable {size n : ℕ} {s w : List UInt8} {o : OutBuffer} {stack ws : List (List UInt8)} {mem : ℕ → UInt8}

structure Holds (o : OutBuffer) (stack : List (List UInt8)) : Prop where
  len : o.len = (prefixed slash stack).length
  bytes : ∀ i (h : i < (prefixed slash stack).length), o.mem i = (prefixed slash stack)[i]
  zero : o.mem o.len = 0

def normalizeWords (size : ℕ) : List (List UInt8) → OutBuffer → Bool × OutBuffer
  | [], o => (true, o)
  | w :: ws, o =>
    if w = [dot] then normalizeWords size ws o
    else if w = [dot, dot] then normalizeWords size ws o.pop
    else if size < o.len + 1 + w.length + 1 then (false, o)
    else normalizeWords size ws (o.push w)

lemma normalizeLoop_eq (hn : s.length ≤ n) :
    normalizeLoop size n s o = normalizeWords size (words slash s) o := by
  induction n generalizing s o with
  | zero =>
    obtain rfl := List.eq_nil_of_length_eq_zero (Nat.le_zero.1 hn)
    rfl
  | succ n ih =>
    rw [normalizeLoop]
    split
    · rename_i h
      rw [words_of_empty h]
      rfl
    · rename_i c r h
      have hlt := length_rest h
      have hrest := fun o => ih (s := (c :: r).dropWhile (· != slash)) (o := o) (by omega)
      rw [words_of_cons h, normalizeWords]
      simp only [hrest]

lemma backToSlash_word (hw : slash ∉ w) {k : ℕ} (hs : mem k = slash)
    (hb : ∀ i (h : i < w.length), mem (k + 1 + i) = w[i]) :
    backToSlash mem (k + 1 + w.length) = k + 1 := by
  induction w using List.reverseRecOn with
  | nil =>
    rw [List.length_nil, Nat.add_zero, backToSlash, if_pos hs]
  | append_singleton w a ih =>
    have hlast : mem (k + 1 + w.length) = a := by
      rw [hb w.length (by simp), List.getElem_concat_length rfl]
    have ha : a ≠ slash := by
      rintro rfl
      exact hw (by simp)
    rw [List.length_append, List.length_singleton, ← Nat.add_assoc, backToSlash, hlast, if_neg ha]
    refine ih (fun h => hw (List.mem_append_left _ h)) fun i h => ?_
    rw [hb i (by rw [List.length_append]; omega), List.getElem_append_left h]

lemma Holds.pop (h : Holds o stack) (hs : ∀ w ∈ stack, Word slash w) : Holds o.pop stack.dropLast := by
  induction stack using List.reverseRecOn with
  | nil =>
    have hlen : o.len = 0 := h.len
    refine ⟨?_, fun i hi => ?_, ?_⟩
    · rw [OutBuffer.pop, hlen]
      rfl
    · simp at hi
    · exact update_self ..
  | append_singleton stack w _ =>
    have hk : o.len = (prefixed slash stack).length + 1 + w.length := by
      rw [h.len, prefixed_concat, List.length_append, List.length_cons]
      omega
    have hbyte : ∀ i (hi : i < (prefixed slash stack ++ slash :: w).length),
        o.mem i = (prefixed slash stack ++ slash :: w)[i] := by
      intro i hi
      rw [h.bytes i (by rw [prefixed_concat]; exact hi)]
      simp only [prefixed_concat]
    have hback : backToSlash o.mem o.len = (prefixed slash stack).length + 1 := by
      rw [hk]
      refine backToSlash_word (hs w (by simp)).2 ?_ fun i hi => ?_
      · rw [hbyte _ (by simp), List.getElem_append_right le_rfl]
        simp
      · rw [hbyte _ (by simp; omega), List.getElem_append_right (by omega)]
        have hidx : (prefixed slash stack).length + 1 + i - (prefixed slash stack).length = i + 1 := by omega
        simp only [hidx, List.getElem_cons_succ]
    have hlen : o.pop.len = (prefixed slash stack).length := by
      simp only [OutBuffer.pop, hback, Nat.add_sub_cancel]
    have hmem : o.pop.mem = update o.mem (prefixed slash stack).length 0 := by
      simp only [OutBuffer.pop, hback, Nat.add_sub_cancel]
    rw [List.dropLast_concat]
    refine ⟨hlen, fun i hi => ?_, ?_⟩
    · rw [hmem, update_of_ne (by omega), hbyte i (by simp; omega), List.getElem_append_left hi]
    · rw [hlen, hmem, update_self]

lemma Holds.push (h : Holds o stack) (w : List UInt8) : Holds (o.push w) (stack ++ [w]) := by
  have hlen : (o.push w).len = (prefixed slash (stack ++ [w])).length := by
    rw [prefixed_concat, List.length_append, List.length_cons, ← h.len]
    simp only [OutBuffer.push]
    omega
  refine ⟨hlen, fun i hi => ?_, ?_⟩
  · have hi' : i < o.len + 1 + w.length := by
      rw [prefixed_concat, List.length_append, List.length_cons, ← h.len] at hi
      omega
    have hstore : (o.push w).mem i = Bytes.store (update o.mem o.len slash) (o.len + 1) w i :=
      update_of_ne (by omega) ..
    simp only [prefixed_concat]
    rw [hstore]
    rcases Nat.lt_trichotomy i o.len with hlt | rfl | hgt
    · rw [Bytes.store_of_not_mem (by omega), update_of_ne (by omega), h.bytes i (by rw [← h.len]; exact hlt),
        List.getElem_append_left]
    · rw [Bytes.store_of_not_mem (by omega), update_self, List.getElem_append_right (by rw [h.len])]
      simp [h.len]
    · rw [Bytes.store, if_pos (by omega), List.getElem_append_right (by rw [← h.len]; omega)]
      have hidx : i - (prefixed slash stack).length = (i - (o.len + 1)) + 1 := by
        rw [← h.len]
        omega
      simp only [hidx, List.getElem_cons_succ]
      rw [List.getD_eq_getElem?_getD, List.getElem?_eq_getElem (by omega)]
      rfl
  · exact update_self ..

lemma backToSlash_le (mem : ℕ → UInt8) (k : ℕ) : backToSlash mem k ≤ k := by
  induction k with
  | zero => exact le_rfl
  | succ k ih =>
    rw [backToSlash]
    split
    · exact le_rfl
    · exact ih.trans k.le_succ

lemma OutBuffer.pop_mem {i : ℕ} (h : o.len < i) : o.pop.mem i = o.mem i := by
  have hle := backToSlash_le o.mem o.len
  exact update_of_ne (by omega) ..

lemma OutBuffer.push_mem {i : ℕ} (h : o.len + 1 + w.length < i) : (o.push w).mem i = o.mem i := by
  have hstore : (o.push w).mem i = Bytes.store (update o.mem o.len slash) (o.len + 1) w i :=
    update_of_ne (by omega) ..
  rw [hstore, Bytes.store_of_not_mem (by omega), update_of_ne (by omega)]

lemma length_le_render (stack : List (List UInt8)) : (prefixed slash stack).length ≤ (render stack).length := by
  rw [render]
  split
  · rename_i h
    rw [h]
    exact Nat.zero_le _
  · exact le_rfl

lemma length_render (h : stack ≠ []) : (render stack).length = (prefixed slash stack).length := by
  rw [render, if_neg h]

lemma FitsIn.dropLast (h : FitsIn size stack) (hsize : 2 ≤ size) : FitsIn size stack.dropLast := by
  rw [FitsIn, render]
  split
  · exact hsize
  · rename_i hne
    induction stack using List.reverseRecOn with
    | nil => exact absurd rfl hne
    | append_singleton stack w _ =>
      have hle := length_le_render (stack ++ [w])
      rw [FitsIn] at h
      rw [prefixed_concat, List.length_append] at hle
      rw [List.dropLast_concat]
      omega

lemma FitsIn.take (h : FitsIn size stack) (hsize : 2 ≤ size) (k : ℕ) : FitsIn size (stack.take k) := by
  rw [FitsIn, render]
  split
  · exact hsize
  · have hle := length_le_render stack
    have happ : prefixed slash stack = prefixed slash (stack.take k) ++ prefixed slash (stack.drop k) := by
      rw [← prefixed_append, List.take_append_drop]
    rw [happ, List.length_append] at hle
    rw [FitsIn] at h
    omega

lemma forall_stacks : (∀ k, FitsIn size (((w :: ws).take k).foldl foldStep stack)) ↔
    FitsIn size stack ∧ ∀ k, FitsIn size ((ws.take k).foldl foldStep (foldStep stack w)) := by
  constructor
  · exact fun h => ⟨h 0, fun k => h (k + 1)⟩
  · rintro ⟨h, hk⟩ k
    cases k with
    | zero => exact h
    | succ k => exact hk k

structure Folds (size : ℕ) (ws stack : List (List UInt8)) (o : OutBuffer) (r : Bool × OutBuffer) : Prop where
  holds : r.1 = true → Holds r.2 (ws.foldl foldStep stack)
  fits : r.1 = true ↔ ∀ k, FitsIn size ((ws.take k).foldl foldStep stack)
  frame : ∀ i, size ≤ i → r.2.mem i = o.mem i

lemma Folds.cons {o' : OutBuffer} {r : Bool × OutBuffer} (h : Folds size ws (foldStep stack w) o' r)
    (hfit : FitsIn size stack) (hmem : ∀ i, size ≤ i → o'.mem i = o.mem i) :
    Folds size (w :: ws) stack o r where
  holds := h.holds
  fits := by rw [forall_stacks, and_iff_right hfit, h.fits]
  frame i hi := (h.frame i hi).trans (hmem i hi)

lemma normalizeWords_folds (h : Holds o stack) (hs : ∀ w ∈ stack, Word slash w)
    (hfit : FitsIn size stack) (hsize : 2 ≤ size) (hws : ∀ w ∈ ws, Word slash w) :
    Folds size ws stack o (normalizeWords size ws o) := by
  induction ws generalizing o stack with
  | nil =>
    refine ⟨fun _ => h, iff_of_true rfl fun k => ?_, fun _ _ => rfl⟩
    rw [List.take_nil]
    exact hfit
  | cons w ws ih =>
    have hrest := fun v hv => hws v (List.mem_cons_of_mem w hv)
    have hlen : o.len < size := by
      have := length_le_render stack
      rw [FitsIn] at hfit
      rw [h.len]
      omega
    rw [normalizeWords]
    split_ifs with hdot hdots hlong
    · have hstep : foldStep stack w = stack := if_pos hdot
      exact (hstep.symm ▸ ih h hs hfit hrest : Folds size ws (foldStep stack w) o _).cons hfit fun _ _ => rfl
    · have hstep : foldStep stack w = stack.dropLast := by
        rw [foldStep, if_neg hdot, if_pos hdots]
      have hpop := ih (h.pop hs) (fun v hv => hs v (List.mem_of_mem_dropLast hv)) (hfit.dropLast hsize) hrest
      exact (hstep.symm ▸ hpop : Folds size ws (foldStep stack w) o.pop _).cons hfit
        fun i hi => o.pop_mem (by omega)
    all_goals
      have hstep : foldStep stack w = stack ++ [w] := by
        rw [foldStep, if_neg hdot, if_neg hdots]
      have hneeds : (render (stack ++ [w])).length = o.len + 1 + w.length := by
        rw [length_render (by simp), ← (h.push w).len]
        rfl
    · refine ⟨nofun, iff_of_false nofun fun hall => ?_, fun _ _ => rfl⟩
      have hnext := (forall_stacks.1 hall).2 0
      rw [List.take_zero, List.foldl_nil, hstep, FitsIn, hneeds] at hnext
      omega
    · have hpush := ih (h.push w) (fun v hv => by
          rcases List.mem_append.1 hv with hv | hv
          · exact hs v hv
          · exact List.mem_singleton.1 hv ▸ hws w List.mem_cons_self)
        (by rw [FitsIn, hneeds]; omega) hrest
      exact (hstep.symm ▸ hpush : Folds size ws (foldStep stack w) (o.push w) _).cons hfit
        fun i hi => o.push_mem (by omega)

end Loop

section Reference

variable {size : ℕ} {w : List UInt8} {stack ws : List (List UInt8)}

lemma foldStep_mem {v : List UInt8} (h : v ∈ foldStep stack w) :
    v ∈ stack ∨ v = w ∧ w ≠ [dot] ∧ w ≠ [dot, dot] := by
  rw [foldStep] at h
  split_ifs at h with h₁ h₂
  · exact .inl h
  · exact .inl (List.mem_of_mem_dropLast h)
  · exact (List.mem_append.1 h).imp_right fun hv => ⟨List.mem_singleton.1 hv, h₁, h₂⟩

lemma foldl_foldStep_plain (hs : ∀ v ∈ stack, PlainName v) (hws : ∀ v ∈ ws, Word slash v) :
    ∀ v ∈ ws.foldl foldStep stack, PlainName v ∧ (v ∈ stack ∨ v ∈ ws) := by
  induction ws generalizing stack with
  | nil => exact fun v hv => ⟨hs v hv, .inl hv⟩
  | cons w ws ih =>
    have hword := hws w List.mem_cons_self
    intro v hv
    have hstack : ∀ u ∈ foldStep stack w, PlainName u := by
      intro u hu
      rcases foldStep_mem hu with hu | ⟨rfl, h₁, h₂⟩
      · exact hs u hu
      · exact ⟨hword, h₁, h₂⟩
    obtain ⟨hplain, hmem⟩ := ih hstack (fun u hu => hws u (List.mem_cons_of_mem _ hu)) v hv
    refine ⟨hplain, ?_⟩
    rcases hmem with hm | hm
    · rcases foldStep_mem hm with hm | ⟨rfl, -⟩
      · exact .inl hm
      · exact .inr List.mem_cons_self
    · exact .inr (List.mem_cons_of_mem _ hm)

lemma foldPath_plain (hws : ∀ v ∈ ws, Word slash v) : ∀ v ∈ foldPath ws, PlainName v ∧ v ∈ ws := by
  intro v hv
  have hnil : ∀ u ∈ ([] : List (List UInt8)), PlainName u := nofun
  obtain ⟨hplain, hmem⟩ := foldl_foldStep_plain hnil hws v hv
  exact ⟨hplain, hmem.resolve_left nofun⟩

lemma foldPath_words_plain (l : List UInt8) : ∀ v ∈ foldPath (words slash l), PlainName v := fun v hv =>
  (foldPath_plain (fun _ hw => (word_of_mem hw).1) v hv).1

lemma length_foldl_le (ws stack : List (List UInt8)) : (prefixed slash (ws.foldl foldStep stack)).length ≤
    (prefixed slash stack).length + (prefixed slash ws).length := by
  induction ws generalizing stack with
  | nil => exact le_rfl
  | cons w ws ih =>
    have hstep : (prefixed slash (foldStep stack w)).length ≤
        (prefixed slash stack).length + (w.length + 1) := by
      rw [foldStep]
      split_ifs
      · omega
      · induction stack using List.reverseRecOn with
        | nil => exact Nat.zero_le _
        | append_singleton stack v _ =>
          rw [List.dropLast_concat, prefixed_concat, List.length_append]
          omega
      · rw [prefixed_concat, List.length_append, List.length_cons]
    have hrest := ih (foldStep stack w)
    rw [List.foldl_cons, prefixed_cons, List.length_cons, List.length_append]
    omega

lemma foldl_plain (hws : ∀ v ∈ ws, PlainName v) : ws.foldl foldStep stack = stack ++ ws := by
  induction ws generalizing stack with
  | nil => rw [List.foldl_nil, List.append_nil]
  | cons w ws ih =>
    obtain ⟨-, h₁, h₂⟩ := hws w List.mem_cons_self
    have hstep : foldStep stack w = stack ++ [w] := by
      rw [foldStep, if_neg h₁, if_neg h₂]
    rw [List.foldl_cons, hstep, ih fun v hv => hws v (List.mem_cons_of_mem _ hv), List.append_assoc,
      List.singleton_append]

lemma length_render_foldPath (l : List UInt8) :
    (render (foldPath (words slash (slash :: l)))).length ≤ l.length + 1 := by
  have hfold := length_foldl_le (words slash (slash :: l)) []
  have hprefixed := length_prefixed_words slash l
  rw [words_sep, prefixed_nil, List.length_nil, Nat.zero_add] at hfold
  rw [words_sep, render]
  split
  · exact Nat.le_add_left ..
  · exact hfold.trans hprefixed

lemma words_render (h : ∀ v ∈ stack, Word slash v) : words slash (render stack) = stack := by
  rw [render]
  split
  · rename_i hs
    rw [hs]
    rfl
  · exact words_prefixed h

end Reference

section Normalize

variable {cwd path : CString} {mem : ℕ → UInt8} {size : ℕ}

lemma render_head (stack : List (List UInt8)) : (render stack).head? = some slash := by
  rw [render]
  split
  · rfl
  · rename_i h
    cases stack with
    | nil => exact absurd rfl h
    | cons w stack => rfl

lemma CString.cut_of_lt {s : CString} (h : s.bytes.length < size) : (s.cut size).bytes = s.bytes :=
  List.take_of_length_le (by omega)

lemma pathNormalize_folds (mem : ℕ → UInt8) (hlen : (fullPath cwd path).bytes.length < pathMax * 2) (hsize : 2 ≤ size) :
    ∃ r : Bool × OutBuffer, Folds size (words slash (fullPath cwd path).bytes) []
        ⟨update mem 0 0, 0⟩ r ∧
      pathNormalize cwd path mem size =
        if r.1 = true ∧ r.2.len = 0 then (true, update (update r.2.mem 0 slash) 1 0)
        else (r.1, r.2.mem) := by
  have hbuf : (if path.bytes.head? = some slash then path.cut (pathMax * 2)
      else (cwd.join path).cut (pathMax * 2)).bytes = (fullPath cwd path).bytes := by
    rw [fullPath] at hlen ⊢
    split_ifs at hlen ⊢ <;> exact CString.cut_of_lt hlen
  have hempty : Holds ⟨update mem 0 0, 0⟩ [] :=
    ⟨rfl, nofun, update_self 0 0 mem⟩
  refine ⟨_, normalizeWords_folds hempty nofun hsize hsize fun w hw => (word_of_mem hw).1, ?_⟩
  rw [pathNormalize]
  simp only [hbuf, normalizeLoop_eq le_rfl]

lemma Holds.at {o : OutBuffer} {stack : List (List UInt8)} {s : CString} (h : Holds o stack)
    (hne : stack ≠ []) (hs : s.bytes = render stack) : s.At o.mem := by
  rw [render, if_neg hne] at hs
  refine ⟨fun i hi => ?_, ?_⟩
  · simp only [hs] at hi ⊢
    exact h.bytes i hi
  · rw [hs, ← h.len]
    exact h.zero

lemma pathNormalize_at (hlen : (fullPath cwd path).bytes.length < pathMax * 2) (hsize : 2 ≤ size)
    (h : (pathNormalize cwd path mem size).1 = true) {s : CString}
    (hs : s.bytes = render (foldPath (words slash (fullPath cwd path).bytes))) :
    s.At (pathNormalize cwd path mem size).2 ∧ s.bytes.length < size := by
  obtain ⟨r, hr, he⟩ := pathNormalize_folds mem hlen hsize
  rw [he] at h ⊢
  have hok : r.1 = true := by
    split at h
    · rename_i hc
      exact hc.1
    · exact h
  have hholds := hr.holds hok
  have hfit := hr.fits.1 hok (words slash (fullPath cwd path).bytes).length
  rw [List.take_length, FitsIn] at hfit
  rw [foldPath] at hs
  refine ⟨?_, by rw [hs]; omega⟩
  by_cases hempty : (words slash (fullPath cwd path).bytes).foldl foldStep [] = []
  · have hzero : r.2.len = 0 := by
      rw [hholds.len, hempty]
      rfl
    rw [if_pos ⟨hok, hzero⟩]
    rw [hempty] at hs
    refine ⟨fun i hi => ?_, ?_⟩
    · simp only [hs] at hi ⊢
      obtain rfl : i = 0 := by
        simp only [render, if_true, List.length_singleton] at hi
        omega
      show update (update r.2.mem 0 slash) 1 0 0 = _
      rw [update_of_ne (by decide), update_self]
      rfl
    · rw [hs]
      show update (update r.2.mem 0 slash) 1 0 1 = _
      rw [update_self]
  · have hpos : r.2.len ≠ 0 := by
      rw [hholds.len]
      exact fun hz => hempty (prefixed_eq_nil.1 (List.eq_nil_of_length_eq_zero hz))
    rw [if_neg fun hc => hpos hc.2]
    exact hholds.at hempty hs

lemma fullPath_head (path : CString) (hcwd : cwd.Canonical) : ∃ l, (fullPath cwd path).bytes = slash :: l := by
  suffices hhead : (fullPath cwd path).bytes.head? = some slash from List.head?_eq_some_iff.1 hhead
  rw [fullPath]
  split_ifs with habs
  · exact habs
  · obtain ⟨stack, -, hs⟩ := hcwd
    have hcwd' : cwd.bytes.head? = some slash := by rw [hs, render_head]
    simp only [CString.join, List.head?_append, hcwd', Option.some_or]

lemma fullPath_length (hlen : cwd.bytes.length + 1 + path.bytes.length < pathMax * 2) :
    (fullPath cwd path).bytes.length < pathMax * 2 := by
  rw [fullPath]
  split_ifs
  · omega
  · simp only [CString.join, List.length_append, List.length_cons]
    omega

def renderString (stack : List (List UInt8)) (h : ∀ w ∈ stack, 0 ∉ w) : CString where
  bytes := render stack
  noZero hz := by
    rw [render] at hz
    split at hz
    · simp [slash] at hz
    · obtain ⟨w, hw, hm⟩ := List.mem_flatMap.1 hz
      exact h w hw ((List.mem_cons.1 hm).resolve_left (by decide))

theorem pathNormalize_spec (cwd path : CString) (mem : ℕ → UInt8) (size : ℕ) (hcwd : cwd.Canonical)
    (hlen : cwd.bytes.length + 1 + path.bytes.length < pathMax * 2) (hsize : 2 ≤ size) :
    (∀ i, size ≤ i → (pathNormalize cwd path mem size).2 i = mem i) ∧
    ((pathNormalize cwd path mem size).1 = false ↔
      ∃ k, ¬ FitsIn size (foldPath ((words slash (fullPath cwd path).bytes).take k))) ∧
    ((pathNormalize cwd path mem size).1 = true →
      ∃ out : CString, out.At (pathNormalize cwd path mem size).2 ∧ out.Canonical ∧
        out.bytes = render (foldPath (words slash (fullPath cwd path).bytes)) ∧
        out.bytes.length < size ∧
        ∀ cwd' mem', (pathNormalize cwd' out mem' size).1 = true ∧
          out.At (pathNormalize cwd' out mem' size).2) := by
  have hfull := fullPath_length hlen
  obtain ⟨r, hr, he⟩ := pathNormalize_folds mem hfull hsize
  have hfst : (pathNormalize cwd path mem size).1 = r.1 := by
    rw [he]
    split
    · rename_i hc
      exact hc.1.symm
    · rfl
  refine ⟨fun i hi => ?_, ?_, fun hok => ?_⟩
  · have hmem : r.2.mem i = mem i := by
      rw [hr.frame i hi]
      exact update_of_ne (by omega) ..
    rw [he]
    split
    · show update (update r.2.mem 0 slash) 1 0 i = mem i
      rw [update_of_ne (by omega), update_of_ne (by omega), hmem]
    · exact hmem
  · rw [hfst, ← Bool.not_eq_true, hr.fits, not_forall]
    rfl
  · have hwords : ∀ w ∈ words slash (fullPath cwd path).bytes, Word slash w := fun w hw => (word_of_mem hw).1
    have hplain := foldPath_plain hwords
    have hzero : ∀ w ∈ foldPath (words slash (fullPath cwd path).bytes), 0 ∉ w := by
      intro w hw hz
      obtain ⟨-, hm⟩ := hplain w hw
      exact (fullPath cwd path).noZero ((word_of_mem hm).2 0 hz)
    let out := renderString _ hzero
    obtain ⟨hat, hout⟩ := pathNormalize_at (s := out) hfull hsize hok rfl
    refine ⟨out, hat, ⟨_, fun w hw => (hplain w hw).1, rfl⟩, rfl, hout, fun cwd' mem' => ?_⟩
    -- the result is absolute, and not longer than the path
    have habs : fullPath cwd' out = out := if_pos (render_head _)
    have hshort : out.bytes.length < pathMax * 2 := by
      obtain ⟨l, hl⟩ := fullPath_head path hcwd
      have hle := length_render_foldPath l
      rw [← hl] at hle
      rw [hl, List.length_cons] at hfull
      exact hle.trans_lt hfull
    have hwout : words slash (fullPath cwd' out).bytes = foldPath (words slash (fullPath cwd path).bytes) := by
      rw [habs]
      exact words_render fun w hw => (hplain w hw).1.1
    have hrefold : ∀ k, foldPath ((words slash (fullPath cwd' out).bytes).take k) =
        (foldPath (words slash (fullPath cwd path).bytes)).take k := by
      intro k
      rw [hwout]
      exact (foldl_plain fun w hw => (hplain w (List.mem_of_mem_take hw)).1).trans (List.nil_append _)
    have hagain : (pathNormalize cwd' out mem' size).1 = true := by
      have hfull' : (fullPath cwd' out).bytes.length < pathMax * 2 := by
        rw [habs]
        exact hshort
      obtain ⟨r', hr', he'⟩ := pathNormalize_folds mem' hfull' hsize
      have hok' : r'.1 = true := by
        refine hr'.fits.2 fun k => ?_
        have hk := hrefold k
        rw [foldPath] at hk
        rw [hk]
        exact FitsIn.take (Nat.succ_le_of_lt hout) hsize k
      rw [he']
      split
      · rfl
      · exact hok'
    refine ⟨hagain, (pathNormalize_at (by rw [habs]; exact hshort) hsize hagain ?_).1⟩
    have hall := hrefold (words slash (fullPath cwd' out).bytes).length
    rw [List.take_length, hwout, List.take_length] at hall
    rw [hwout, hall]
    rfl

theorem pathNormalize_spec_dots : ∃ out : CString,
    out.At (pathNormalize ⟨[slash], by decide⟩ ⟨[97, slash, dot, dot, slash, slash, 98], by decide⟩
      (fun _ => 1) 4).2 ∧ out.Canonical ∧ out.bytes = [slash, 98] := by
  obtain ⟨out, hat, hcanonical, hbytes, -⟩ := (pathNormalize_spec ⟨[slash], by decide⟩
    ⟨[97, slash, dot, dot, slash, slash, 98], by decide⟩ (fun _ => 1) 4 ⟨[], nofun, rfl⟩ (by decide)
    (by decide)).2.2 (by decide)
  exact ⟨out, hat, hcanonical, hbytes.trans (by decide)⟩

end Normalize

end MyOS.Fs
