import Mathlib.Data.List.GetD
import MyOS.Library.Lines

/-! `read_line` and the loop of `main` for a standard input that is no terminal. -/

namespace MyOS.User.Shell

open Library Function

def lineMax : ℕ := 1024

def newline : UInt8 := 10

/-- What `read` of one byte gives; after the last of them it is at the end of the file. -/
inductive Got
  | byte (c : UInt8)
  | interrupted
  | failed

abbrev LineBuf := ℕ → UInt8

def readLine (size : ℕ) : ℕ → LineBuf → List Got → ℤ × LineBuf × List Got
  | len, buf, [] => (if len = 0 then -1 else len, buf, [])
  | _, buf, .interrupted :: gs => (-2, buf, gs)
  | len, buf, .failed :: gs => (if len = 0 then -1 else len, buf, gs)
  | len, buf, .byte c :: gs =>
    if c = newline then (len, update buf len 0, gs)
    else if len < size - 1 then readLine size (len + 1) (update buf len c) gs
    else readLine size len buf gs

/-- The string in the buffer; `none` when it has no end there. -/
def cString (size : ℕ) (buf : LineBuf) : Option (List UInt8) :=
  let bytes := (List.range size).map buf
  if 0 ∈ bytes then some (bytes.takeWhile (· ≠ 0)) else none

lemma readLine_length {size len : ℕ} {buf : LineBuf} {gs : List Got} :
    (readLine size len buf gs).2.2.length ≤ gs.length - 1 := by
  induction gs generalizing len buf with
  | nil => exact Nat.le_refl _
  | cons g gs ih =>
    cases g with
    | byte c =>
      rw [readLine]
      split_ifs
      · exact Nat.le_refl _
      · exact ih.trans (Nat.sub_le _ _)
      · exact ih.trans (Nat.sub_le _ _)
    | interrupted => exact Nat.le_refl _
    | failed => exact Nat.le_refl _

lemma readLine_lt {size : ℕ} {buf : LineBuf} {gs : List Got} (h : (readLine size 0 buf gs).1 ≠ -1) :
    (readLine size 0 buf gs).2.2.length < gs.length := by
  cases gs with
  | nil => exact absurd rfl h
  | cons g gs => exact Nat.lt_succ_of_le readLine_length

/-- The strings that `main` passes to `run_line`, which ends the shell when it gives `none`. -/
def mainLoop {σ : Type} (runLine : σ → Option (List UInt8) → Option σ) (s : σ) (buf : LineBuf)
    (gs : List Got) : List (Option (List UInt8)) :=
  let r := readLine lineMax 0 buf gs
  if r.1 = -2 then mainLoop runLine s r.2.1 r.2.2
  else if r.1 < 0 then []
  else
    let line := cString lineMax r.2.1
    line :: match runLine s line with
      | none => []
      | some s => mainLoop runLine s r.2.1 r.2.2
termination_by gs.length
decreasing_by
  all_goals
    refine readLine_lt ?_
    change r.1 ≠ -1
    omega

def cutLines (input : List UInt8) : List (List UInt8) := (lines newline input).map (·.take (lineMax - 1))

section Spec

variable {σ : Type} (runLine : σ → Option (List UInt8) → Option σ)

def executed : σ → List (List UInt8) → List (List UInt8)
  | _, [] => []
  | s, t :: ts =>
    t :: match runLine s (some t) with
      | none => []
      | some s => executed s ts

/-- The byte that a line of `n` bytes finds behind it: it is from the last line that is as long at least. -/
def leftAt (buf : LineBuf) (n : ℕ) (ts : List (List UInt8)) : UInt8 :=
  match ts.reverse.find? (n ≤ ·.length) with
  | none => buf n
  | some t => t.getD n 0

def EndsClean (s : σ) (buf : LineBuf) (input : List UInt8) : Prop :=
  ∀ ts t, cutLines input = ts ++ [t] → ¬ Closed newline input →
    (ts.foldlM (fun s t => runLine s (some t)) s).isSome → leftAt buf t.length ts = 0

end Spec

section Buffer

variable {size len : ℕ} {buf : LineBuf} {t : List UInt8} {gs : List Got}

def stored (buf : LineBuf) (len : ℕ) (t : List UInt8) : LineBuf := fun i =>
  if len ≤ i then t.getD (i - len) (buf i) else buf i

lemma stored_nil : stored buf len [] = buf := by
  funext i
  exact ite_self _

lemma stored_cons {c : UInt8} : stored (update buf len c) (len + 1) t = stored buf len (c :: t) := by
  funext i
  unfold stored
  rcases lt_trichotomy i len with hlt | rfl | hgt
  · rw [if_neg (by omega), if_neg (by omega), update_of_ne (by omega)]
  · rw [if_neg (by omega), if_pos le_rfl, update_self, Nat.sub_self]
    rfl
  · rw [if_pos (by omega), if_pos hgt.le, update_of_ne (by omega), show i - len = i - (len + 1) + 1 by omega]
    rfl

lemma readLine_bytes (h : newline ∉ t) (hlen : len ≤ size - 1) : readLine size len buf (t.map .byte ++ gs) =
    readLine size (len + (t.take (size - 1 - len)).length) (stored buf len (t.take (size - 1 - len))) gs := by
  induction t generalizing len buf with
  | nil => rw [List.take_nil, stored_nil]; rfl
  | cons c t ih =>
    rw [List.mem_cons, not_or] at h
    rw [List.map_cons, List.cons_append, readLine, if_neg (Ne.symm h.1)]
    by_cases hroom : len < size - 1
    · have hrest : size - 1 - len = size - 1 - (len + 1) + 1 := by omega
      have hnext : len + 1 ≤ size - 1 := hroom
      rw [if_pos hroom, ih h.2 hnext, hrest, List.take_succ_cons, stored_cons, List.length_cons, Nat.add_assoc,
        Nat.add_comm 1]
    · rw [if_neg hroom, ih h.2 hlen, show size - 1 - len = 0 by omega]
      rfl

lemma cString_stored (hlen : t.length < size) (h0 : 0 ∉ t) :
    cString size (stored buf 0 t) = some t ↔ buf t.length = 0 := by
  have hbytes : ∃ rest, (List.range size).map (stored buf 0 t) = t ++ buf t.length :: rest := by
    have hl : t.length < ((List.range size).map (stored buf 0 t)).length := by
      rwa [List.length_map, List.length_range]
    have htake : ((List.range size).map (stored buf 0 t)).take t.length = t := by
      refine List.ext_getElem (by rw [List.length_take]; omega) fun i _ hi => ?_
      rw [List.getElem_take, List.getElem_map, List.getElem_range]
      exact (if_pos (Nat.zero_le i)).trans (List.getD_eq_getElem t _ hi)
    refine ⟨((List.range size).map (stored buf 0 t)).drop (t.length + 1), ?_⟩
    have hsplit := (List.take_append_drop t.length ((List.range size).map (stored buf 0 t))).symm
    rw [htake, List.drop_eq_getElem_cons hl, List.getElem_map, List.getElem_range] at hsplit
    have hend : stored buf 0 t t.length = buf t.length :=
      (if_pos (Nat.zero_le _)).trans (List.getD_eq_default _ _ le_rfl)
    rwa [hend] at hsplit
  obtain ⟨rest, hrest⟩ := hbytes
  have htake : (t ++ buf t.length :: rest).takeWhile (· ≠ 0) =
      t ++ (buf t.length :: rest).takeWhile (· ≠ 0) := by
    refine List.takeWhile_append_of_pos fun c hc => ?_
    rw [decide_eq_true_iff]
    rintro rfl
    exact h0 hc
  unfold cString
  rw [hrest]
  dsimp only
  rw [htake]
  constructor
  · intro h
    by_contra hne
    split_ifs at h
    rw [List.takeWhile_cons_of_pos (by simpa using hne)] at h
    simpa using Option.some.inj h
  · intro hz
    rw [hz, if_pos (by simp), List.takeWhile_cons_of_neg (by simp), List.append_nil]

def afterLine (buf : LineBuf) (t : List UInt8) : LineBuf := update (stored buf 0 t) t.length 0

lemma readLine_line (h : newline ∉ t) : readLine size 0 buf (t.map .byte ++ .byte newline :: gs) =
    (((t.take (size - 1)).length : ℤ), afterLine buf (t.take (size - 1)), gs) := by
  rw [readLine_bytes h (Nat.zero_le _), readLine, if_pos rfl, Nat.zero_add]
  rfl

lemma readLine_last (h : newline ∉ t) : readLine size 0 buf (t.map .byte) =
    (if (t.take (size - 1)).length = 0 then -1 else ((t.take (size - 1)).length : ℤ), stored buf 0 (t.take (size - 1)),
      []) := by
  have hb : readLine size 0 buf (t.map .byte ++ []) = _ := readLine_bytes h (Nat.zero_le (size - 1))
  rw [List.append_nil] at hb
  rw [hb, readLine, Nat.zero_add]
  rfl

lemma cString_afterLine (hlen : t.length < size) (h0 : 0 ∉ t) : cString size (afterLine buf t) = some t := by
  have heq : afterLine buf t = stored (update buf t.length 0) 0 t := by
    funext i
    unfold afterLine stored
    rw [if_pos (Nat.zero_le i)]
    by_cases hi : i = t.length
    · subst hi
      rw [update_self, Nat.sub_zero, List.getD_eq_default _ _ le_rfl, update_self]
    · rw [update_of_ne hi, if_pos (Nat.zero_le i), update_of_ne hi]
  rw [heq, cString_stored hlen h0, update_self]

lemma afterLine_apply {n : ℕ} : afterLine buf t n = if n ≤ t.length then t.getD n 0 else buf n := by
  unfold afterLine stored
  rcases lt_trichotomy n t.length with hlt | rfl | hgt
  · rw [update_of_ne hlt.ne, if_pos (Nat.zero_le n), if_pos hlt.le, Nat.sub_zero,
      List.getD_eq_getElem _ _ hlt, List.getD_eq_getElem _ _ hlt]
  · rw [update_self, if_pos le_rfl, List.getD_eq_default _ _ le_rfl]
  · rw [update_of_ne hgt.ne', if_pos (Nat.zero_le n), if_neg (by omega), Nat.sub_zero,
      List.getD_eq_default _ _ hgt.le]

lemma leftAt_afterLine {n : ℕ} {ts : List (List UInt8)} : leftAt (afterLine buf t) n ts = leftAt buf n (t :: ts) := by
  unfold leftAt
  rw [List.reverse_cons, List.find?_append]
  cases ts.reverse.find? (n ≤ ·.length) with
  | some u => rfl
  | none =>
    dsimp only
    rw [afterLine_apply, Option.none_or, List.find?_singleton]
    by_cases hn : n ≤ t.length
    · rw [if_pos hn, if_pos (by simpa using hn)]
    · rw [if_neg hn, if_neg (by simpa using hn)]

end Buffer

section Loop

variable {σ : Type} {runLine : σ → Option (List UInt8) → Option σ} {s : σ} {buf : LineBuf}
  {t l input : List UInt8}

lemma mainLoop_line (h : newline ∉ t) (h0 : 0 ∉ t) :
    mainLoop runLine s buf ((t ++ newline :: l).map .byte) =
      some (t.take (lineMax - 1)) :: match runLine s (some (t.take (lineMax - 1))) with
        | none => []
        | some s => mainLoop runLine s (afterLine buf (t.take (lineMax - 1))) (l.map .byte) := by
  have hlt : (t.take (lineMax - 1)).length < lineMax := by
    rw [List.length_take]
    exact (Nat.min_le_left _ _).trans_lt (by decide)
  rw [mainLoop, List.map_append, List.map_cons, readLine_line h]
  dsimp only
  rw [if_neg (by omega), if_neg (by omega), cString_afterLine hlt fun hc => h0 (List.mem_of_mem_take hc)]

lemma mainLoop_nil : mainLoop runLine s buf [] = [] := by
  rw [mainLoop]
  rfl

lemma mainLoop_last (h : newline ∉ t) (hne : t ≠ []) : mainLoop runLine s buf (t.map .byte) =
    [cString lineMax (stored buf 0 (t.take (lineMax - 1)))] := by
  have hpos : 0 < (t.take (lineMax - 1)).length := by
    rw [List.length_take]
    exact lt_min (by decide) (List.length_pos_of_ne_nil hne)
  rw [mainLoop, readLine_last h, if_neg hpos.ne']
  dsimp only
  rw [if_neg (by omega), if_neg (by omega)]
  split
  · rfl
  · rw [mainLoop_nil]

lemma cutLines_append_cons (h : newline ∉ t) :
    cutLines (t ++ newline :: l) = t.take (lineMax - 1) :: cutLines l := by
  rw [cutLines, lines_append_cons h]
  rfl

lemma endsClean_append_cons (h : newline ∉ t) : EndsClean runLine s buf (t ++ newline :: l) ↔
    ∀ s', runLine s (some (t.take (lineMax - 1))) = some s' →
      EndsClean runLine s' (afterLine buf (t.take (lineMax - 1))) l := by
  constructor
  · intro hc s' hs ts u hts hopen hrun
    rw [leftAt_afterLine]
    refine hc (t.take (lineMax - 1) :: ts) u ?_ (fun hcl => hopen (closed_append_cons.1 hcl)) ?_
    · rw [cutLines_append_cons h, hts, List.cons_append]
    · rw [List.foldlM_cons, hs]
      exact hrun
  · intro hc ts u hts hopen hrun
    rw [cutLines_append_cons h] at hts
    rw [closed_append_cons] at hopen
    cases ts with
    | nil =>
      have hnil : cutLines l = [] := (List.cons.inj hts).2
      rw [cutLines, List.map_eq_nil_iff, lines_eq_nil] at hnil
      exact absurd (.inl hnil) hopen
    | cons v ts =>
      obtain ⟨rfl, hrest⟩ := List.cons.inj hts
      rw [List.foldlM_cons] at hrun
      cases hs : runLine s (some (t.take (lineMax - 1))) with
      | none =>
        rw [hs] at hrun
        exact absurd hrun Bool.false_ne_true
      | some s' =>
        rw [hs] at hrun
        rw [← leftAt_afterLine]
        exact hc s' hs ts u hrest hopen hrun

theorem mainLoop_eq_iff (h0 : 0 ∉ input) : mainLoop runLine s buf (input.map .byte) =
    (executed runLine s (cutLines input)).map some ↔ EndsClean runLine s buf input := by
  induction input using lines_induction newline generalizing s buf with
  | last t h =>
    by_cases hne : t = []
    · subst hne
      exact iff_of_true mainLoop_nil fun _ _ _ hopen => absurd (.inl rfl) hopen
    · have hcut : cutLines t = [t.take (lineMax - 1)] := by
        rw [cutLines, lines_of_notMem h hne]
        rfl
      have hlt : (t.take (lineMax - 1)).length < lineMax := by
        rw [List.length_take]
        exact (Nat.min_le_left _ _).trans_lt (by decide)
      have hexec : executed runLine s [t.take (lineMax - 1)] = [t.take (lineMax - 1)] := by
        rw [executed]
        split <;> rfl
      rw [mainLoop_last h hne, hcut, hexec, List.map_singleton, List.singleton_inj,
        cString_stored hlt fun hc => h0 (List.mem_of_mem_take hc)]
      constructor
      · intro hz ts u hts _ _
        rw [hcut] at hts
        obtain ⟨rfl, hu⟩ := List.append_inj' (hts.symm.trans (List.nil_append _).symm) rfl
        rw [List.singleton_inj.1 hu]
        exact hz
      · intro hc
        exact hc [] _ hcut (fun hcl => hne ((closed_of_notMem h).1 hcl)) rfl
  | line t l h ih =>
    rw [List.mem_append, List.mem_cons, not_or, not_or] at h0
    rw [mainLoop_line h h0.1, cutLines_append_cons h, executed, endsClean_append_cons h, List.map_cons,
      List.cons_inj_right]
    cases runLine s (some (t.take (lineMax - 1))) with
    | none => exact iff_of_true rfl fun _ hs => nomatch hs
    | some s' =>
      dsimp only
      rw [ih h0.2.2]
      exact ⟨fun hc _ hs => Option.some.inj hs ▸ hc, fun hc => hc s' rfl⟩

def runsOn : Unit → Option (List UInt8) → Option Unit := fun _ _ => some ()

theorem mainLoop_ab : mainLoop runsOn () (fun _ => 0) ([97, 98, 10].map .byte) =
    (executed runsOn () (cutLines [97, 98, 10])).map some :=
  (mainLoop_eq_iff (by decide)).2 fun _ _ _ hopen => absurd (.inr rfl) hopen

theorem mainLoop_ab_c : mainLoop runsOn () (fun _ => 0) ([97, 98, 10, 99].map .byte) ≠
    (executed runsOn () (cutLines [97, 98, 10, 99])).map some := by
  have hab : newline ∉ [97, 98] := by decide
  have hc : newline ∉ [99] := by decide
  have hloop : mainLoop runsOn () (fun _ => 0) (([97, 98] ++ newline :: [99]).map .byte) = _ :=
    mainLoop_line hab (by decide)
  intro h
  have hlast : mainLoop runsOn () (afterLine (fun _ => 0) [97, 98]) ([99].map .byte) = [some [99]] :=
    (List.cons.inj (hloop.symm.trans h)).2
  rw [mainLoop_last hc (List.cons_ne_nil _ _)] at hlast
  have hstring : cString lineMax (stored (afterLine (fun _ => 0) [97, 98]) 0 [99]) = some [99] :=
    List.singleton_inj.1 hlast
  rw [cString_stored (by decide) (by decide)] at hstring
  cases hstring

end Loop

end MyOS.User.Shell
