import MyOS.Library.Selections

/-! A text as the lines between its separators. -/

namespace MyOS.Library

variable {α : Type*} [DecidableEq α] (nl : α)

def lines : List α → List (List α)
  | [] => []
  | c :: l =>
    if c = nl then [] :: lines l
    else match lines l with
      | [] => [[c]]
      | t :: ts => (c :: t) :: ts

def Closed (l : List α) : Prop := l = [] ∨ l.getLast? = some nl

variable {nl} {t l : List α}

lemma lines_append_cons (h : nl ∉ t) : lines nl (t ++ nl :: l) = t :: lines nl l := by
  induction t with
  | nil => exact if_pos rfl
  | cons c t ih =>
    rw [List.mem_cons, not_or] at h
    rw [List.cons_append, lines, if_neg (Ne.symm h.1), ih h.2]

lemma lines_of_notMem (h : nl ∉ t) (hne : t ≠ []) : lines nl t = [t] := by
  induction t with
  | nil => exact absurd rfl hne
  | cons c t ih =>
    rw [List.mem_cons, not_or] at h
    rw [lines, if_neg (Ne.symm h.1)]
    cases t with
    | nil => rfl
    | cons d t => rw [ih h.2 (List.cons_ne_nil d t)]

lemma lines_eq_nil : lines nl l = [] ↔ l = [] := by
  cases l with
  | nil => exact iff_of_true rfl rfl
  | cons c l =>
    refine iff_of_false (fun h => ?_) (List.cons_ne_nil c l)
    rw [lines] at h
    split at h
    · exact List.cons_ne_nil _ _ h
    · split at h <;> exact List.cons_ne_nil _ _ h

variable (nl) in
lemma lines_induction {P : List α → Prop} (last : ∀ t, nl ∉ t → P t)
    (line : ∀ t l, nl ∉ t → P l → P (t ++ nl :: l)) (l : List α) : P l := by
  induction hk : l.length using Nat.strong_induction_on generalizing l with
  | _ k ih =>
    by_cases hm : nl ∈ l
    · obtain ⟨t, r, rfl, ht⟩ := List.eq_append_cons_of_mem hm
      refine line t r ht (ih r.length ?_ r rfl)
      rw [← hk, List.length_append, List.length_cons]
      omega
    · exact last l hm

omit [DecidableEq α] in
lemma closed_append_cons : Closed nl (t ++ nl :: l) ↔ Closed nl l := by
  unfold Closed
  cases l with
  | nil => simp
  | cons c l => simp [List.getLast?_append, List.getLast?_cons]

omit [DecidableEq α] in
lemma closed_of_notMem (h : nl ∉ t) : Closed nl t ↔ t = [] := by
  constructor
  · rintro (ht | ht)
    · exact ht
    · exact absurd (List.mem_of_getLast? ht) h
  · exact .inl

end MyOS.Library

/-! Lines that are read into a buffer which the long ones do not fit into. -/

namespace MyOS.Library

variable {α : Type*} [DecidableEq α] (nl : α)

def takeLine : List α → List α
  | [] => []
  | c :: l => if c = nl then [c] else c :: takeLine l

def rawLines : List α → List (List α)
  | [] => []
  | c :: l =>
    if c = nl then [c] :: rawLines l
    else match rawLines l with
      | [] => [[c]]
      | t :: ts => (c :: t) :: ts

def strip (t : List α) : List α := if t.getLast? = some nl then t.dropLast else t

variable {nl} {l t r : List α} {room : ℕ}

lemma takeLine_of_notMem (h : nl ∉ t) : takeLine nl t = t := by
  induction t with
  | nil => rfl
  | cons c t ih =>
    rw [List.mem_cons, not_or] at h
    rw [takeLine, if_neg (Ne.symm h.1), ih h.2]

lemma takeLine_append_cons (h : nl ∉ t) : takeLine nl (t ++ nl :: l) = t ++ [nl] := by
  induction t with
  | nil => exact if_pos rfl
  | cons c t ih =>
    rw [List.mem_cons, not_or] at h
    rw [List.cons_append, takeLine, if_neg (Ne.symm h.1), ih h.2]
    rfl

lemma takeLine_prefix : takeLine nl l <+: l := by
  induction l with
  | nil => exact List.prefix_refl _
  | cons c l ih =>
    rw [takeLine]
    split
    · exact ⟨l, rfl⟩
    · exact List.cons_prefix_cons.2 ⟨rfl, ih⟩

lemma takeLine_pos (h : l ≠ []) : 0 < (takeLine nl l).length := by
  cases l with
  | nil => exact absurd rfl h
  | cons c l =>
    rw [takeLine]
    split <;> exact Nat.succ_pos _

variable (nl) in
/-- The text in pieces of at most `room`, which end behind a separator or where there is no room. -/
def pieces (room : ℕ) (l : List α) : List (List α) :=
  if _h : l = [] ∨ room = 0 then []
  else takeLine nl (l.take room) :: pieces room (l.drop (takeLine nl (l.take room)).length)
termination_by l.length
decreasing_by
  rw [not_or] at _h
  have hpos := List.length_pos_iff.2 _h.1
  have hp : 0 < (takeLine nl (l.take room)).length :=
    takeLine_pos (fun hnil => (List.take_eq_nil_iff.1 hnil).elim _h.2 _h.1)
  rw [List.length_drop]
  omega

lemma pieces_nil : pieces nl room [] = [] := by
  rw [pieces, dif_pos (.inl rfl)]

lemma pieces_cons (h : l ≠ []) (hroom : 0 < room) : pieces nl room l =
    takeLine nl (l.take room) :: pieces nl room (l.drop (takeLine nl (l.take room)).length) := by
  rw [pieces, dif_neg (not_or.2 ⟨h, hroom.ne'⟩)]

lemma pieces_line (h : nl ∉ t) (hfit : t.length < room) :
    pieces nl room (t ++ nl :: l) = (t ++ [nl]) :: pieces nl room l := by
  have htake : (t ++ nl :: l).take room = t ++ nl :: l.take (room - t.length - 1) := by
    rw [List.take_append, List.take_of_length_le hfit.le, List.take_cons (by omega)]
  rw [pieces_cons (by simp) (by omega), htake, takeLine_append_cons h]
  congr 2
  rw [List.append_cons t nl l, List.drop_left]

lemma pieces_long (h : nl ∉ t) (hroom : 0 < room) (hlong : room ≤ t.length) :
    pieces nl room (t ++ l) = t.take room :: pieces nl room (t.drop room ++ l) := by
  have hne : t ++ l ≠ [] := by
    rintro heq
    rw [(List.append_eq_nil_iff.1 heq).1] at hlong
    exact absurd hlong (not_le.2 hroom)
  rw [pieces_cons hne hroom, List.take_append_of_le_length hlong,
    takeLine_of_notMem fun hm => h (List.mem_of_mem_take hm), List.length_take, Nat.min_eq_left hlong,
    List.drop_append_of_le_length hlong]

lemma pieces_append_cons (h : nl ∉ t) (hroom : 0 < room) :
    pieces nl room (t ++ nl :: l) = pieces nl room (t ++ [nl]) ++ pieces nl room l := by
  induction hk : t.length using Nat.strong_induction_on generalizing t with
  | _ k ih =>
    subst hk
    by_cases hfit : t.length < room
    · rw [pieces_line h hfit, pieces_line h hfit, pieces_nil]
      rfl
    · rw [not_lt] at hfit
      have hlt : (t.drop room).length < t.length := by
        rw [List.length_drop]
        omega
      rw [pieces_long h hroom hfit, pieces_long h hroom hfit,
        ih _ hlt (fun hm => h (List.mem_of_mem_drop hm)) rfl]
      rfl

lemma rawLines_append_cons (h : nl ∉ t) : rawLines nl (t ++ nl :: l) = (t ++ [nl]) :: rawLines nl l := by
  induction t with
  | nil => exact if_pos rfl
  | cons c t ih =>
    rw [List.mem_cons, not_or] at h
    rw [List.cons_append, rawLines, if_neg (Ne.symm h.1), ih h.2]
    rfl

lemma rawLines_of_notMem (h : nl ∉ t) (hne : t ≠ []) : rawLines nl t = [t] := by
  induction t with
  | nil => exact absurd rfl hne
  | cons c t ih =>
    rw [List.mem_cons, not_or] at h
    rw [rawLines, if_neg (Ne.symm h.1)]
    cases t with
    | nil => rfl
    | cons d t => rw [ih h.2 (List.cons_ne_nil d t)]

lemma strip_of_notMem (h : nl ∉ t) : strip nl t = t := if_neg fun hl => h (List.mem_of_getLast? hl)

lemma strip_append : strip nl (t ++ [nl]) = t := by
  rw [strip, if_pos List.getLast?_concat, List.dropLast_concat]

lemma length_strip_le : (strip nl t).length ≤ t.length := by
  rw [strip]
  split
  · exact (List.dropLast_sublist t).length_le
  · exact le_rfl

lemma lines_eq_map : lines nl l = (rawLines nl l).map (strip nl) := by
  induction l using lines_induction nl with
  | last t h =>
    by_cases hne : t = []
    · rw [hne]
      rfl
    · rw [lines_of_notMem h hne, rawLines_of_notMem h hne, List.map_singleton, strip_of_notMem h]
  | line t l h ih => rw [lines_append_cons h, rawLines_append_cons h, List.map_cons, strip_append, ih]

lemma pieces_eq_flatMap (hroom : 0 < room) : pieces nl room l = (rawLines nl l).flatMap (pieces nl room) := by
  induction l using lines_induction nl with
  | last t h =>
    by_cases hne : t = []
    · rw [hne, pieces_nil]
      rfl
    · rw [rawLines_of_notMem h hne, List.flatMap_singleton]
  | line t l h ih => rw [rawLines_append_cons h, List.flatMap_cons, pieces_append_cons h hroom, ih]

lemma mem_rawLines (h : r ∈ rawLines nl l) : ∃ t, nl ∉ t ∧ (r = t ++ [nl] ∨ r = t ∧ t ≠ []) := by
  induction l using lines_induction nl with
  | last t ht =>
    by_cases hne : t = []
    · rw [hne] at h
      exact absurd h List.not_mem_nil
    · rw [rawLines_of_notMem ht hne, List.mem_singleton] at h
      exact ⟨t, ht, .inr ⟨h, hne⟩⟩
  | line t l ht ih =>
    rw [rawLines_append_cons ht, List.mem_cons] at h
    rcases h with rfl | h
    · exact ⟨t, ht, .inl rfl⟩
    · exact ih h

lemma flatten_pieces (hroom : 0 < room) : (pieces nl room l).flatten = l := by
  induction hk : l.length using Nat.strong_induction_on generalizing l with
  | _ k ih =>
    subst hk
    by_cases hl : l = []
    · rw [hl, pieces_nil]
      rfl
    · have hpos := List.length_pos_iff.2 hl
      have hp : 0 < (takeLine nl (l.take room)).length :=
        takeLine_pos (fun hnil => (List.take_eq_nil_iff.1 hnil).elim hroom.ne' hl)
      have hprefix : takeLine nl (l.take room) <+: l := takeLine_prefix.trans (List.take_prefix room l)
      rw [pieces_cons hl hroom, List.flatten_cons, ih _ (by rw [List.length_drop]; omega) rfl]
      nth_rewrite 1 [List.prefix_iff_eq_take.1 hprefix]
      exact List.take_append_drop _ l

lemma length_le_of_mem_pieces {p : List α} (h : p ∈ pieces nl room l) : p.length ≤ room := by
  induction hk : l.length using Nat.strong_induction_on generalizing l with
  | _ k ih =>
    subst hk
    by_cases hl : l = [] ∨ room = 0
    · rw [pieces, dif_pos hl] at h
      exact absurd h List.not_mem_nil
    · rw [not_or] at hl
      have hpos := List.length_pos_iff.2 hl.1
      have hp : 0 < (takeLine nl (l.take room)).length :=
        takeLine_pos (fun hnil => (List.take_eq_nil_iff.1 hnil).elim hl.2 hl.1)
      rw [pieces_cons hl.1 (Nat.pos_of_ne_zero hl.2)] at h
      rcases List.mem_cons.1 h with rfl | h
      · exact takeLine_prefix.length_le.trans (List.length_take_le _ _)
      · exact ih _ (by rw [List.length_drop]; omega) h rfl

lemma pieces_fit (h : r ∈ rawLines nl l) (hfit : r.length ≤ room) : pieces nl room r = [r] := by
  obtain ⟨t, ht, rfl | ⟨rfl, hne⟩⟩ := mem_rawLines h
  · rw [List.length_append] at hfit
    rw [pieces_line ht hfit, pieces_nil]
  · have hpos := List.length_pos_iff.2 hne
    rw [pieces_cons hne (hpos.trans_le hfit), List.take_of_length_le hfit, takeLine_of_notMem ht, List.drop_length,
      pieces_nil]

lemma pieces_unfit (h : r ∈ rawLines nl l) (hroom : 0 < room) (hlong : room < r.length) :
    nl ∉ r.take room ∧ pieces nl room r = r.take room :: pieces nl room (r.drop room) ∧ r.drop room ≠ [] ∧
      ((strip nl r).length ≤ room → strip nl r = r.take room) := by
  have hne : r.drop room ≠ [] := fun hnil => absurd (List.drop_eq_nil_iff.1 hnil) (not_le.2 hlong)
  obtain ⟨t, ht, rfl | ⟨rfl, -⟩⟩ := mem_rawLines h
  · have hle : room ≤ t.length := by
      rw [List.length_append, List.length_singleton] at hlong
      omega
    rw [List.take_append_of_le_length hle, List.drop_append_of_le_length hle, strip_append]
    refine ⟨fun hm => ht (List.mem_of_mem_take hm), pieces_long ht hroom hle, ?_, fun h => ?_⟩
    · simp
    · rw [List.take_of_length_le h]
  · have hp := pieces_long (l := []) ht hroom hlong.le
    rw [List.append_nil, List.append_nil] at hp
    refine ⟨fun hm => ht (List.mem_of_mem_take hm), hp, hne, fun h => ?_⟩
    rw [strip_of_notMem ht] at h
    exact absurd h (not_le.2 hlong)

lemma cuts_pieces (hroom : 0 < room) : Cuts (fun t : List α => t.length ≤ room) (strip nl)
    (fun r => (pieces nl room r).map (strip nl)) (rawLines nl l) where
  short r _ p hp := by
    obtain ⟨q, hq, rfl⟩ := List.mem_map.1 hp
    exact length_strip_le.trans (length_le_of_mem_pieces hq)
  first r hr hshort := by
    rcases le_or_gt r.length room with hfit | hlong
    · exact ⟨[], by rw [pieces_fit hr hfit, List.map_singleton]⟩
    · obtain ⟨hno, hp, -, hself⟩ := pieces_unfit hr hroom hlong
      exact ⟨_, by rw [hp, List.map_cons, strip_of_notMem hno, hself hshort]⟩
  nonempty r hr := by
    rw [List.length_map]
    rcases le_or_gt r.length room with hfit | hlong
    · rw [pieces_fit hr hfit]
      exact Nat.one_pos
    · rw [(pieces_unfit hr hroom hlong).2.1]
      exact Nat.succ_pos _
  long r hr hcut := by
    rw [List.length_map]
    rcases le_or_gt r.length room with hfit | hlong
    · rw [pieces_fit hr hfit] at hcut
      exact absurd rfl hcut
    · obtain ⟨-, hp, hne, -⟩ := pieces_unfit hr hroom hlong
      rw [hp, pieces_cons hne hroom]
      exact Nat.succ_lt_succ (Nat.succ_pos _)

end MyOS.Library
