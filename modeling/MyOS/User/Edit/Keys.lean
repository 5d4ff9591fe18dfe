import MyOS.User.Edit.Rows

/-! What the keys do to the text, against an editor of one text with a cursor in it. -/

namespace MyOS.User.Edit

inductive Arrow
  | left | right | up | down
  deriving DecidableEq

/-- The keys of `process_key`, but for those that save, search, ask for a row or leave. -/
inductive Key
  | typed (c : UInt8) (h : c = 9 ∨ 32 ≤ c ∧ c ≠ 127)
  | enter
  | backspace
  | delKey
  | arrow (a : Arrow)
  | homeKey
  | endKey
  | pageUp
  | pageDown
  deriving DecidableEq

namespace Editor

def moveCursor (e : Editor) (key : Arrow) : Editor :=
  let e := match key with
    | .left =>
      if e.cx > 0 then { e with cx := e.cx - 1 }
      else if e.cy > 0 then { e with cy := e.cy - 1, cx := (e.line (e.cy - 1)).length }
      else e
    | .right =>
      if e.cy < e.numrows ∧ e.cx < (e.line e.cy).length then { e with cx := e.cx + 1 }
      else if e.cy + 1 < e.numrows then { e with cy := e.cy + 1, cx := 0 }
      else e
    | .up => if e.cy > 0 then { e with cy := e.cy - 1 } else e
    | .down => if e.cy + 1 < e.numrows then { e with cy := e.cy + 1 } else e
  if e.cx > (e.line e.cy).length then { e with cx := (e.line e.cy).length } else e

def scroll (e : Editor) : Editor :=
  let e := if e.cy < e.rowoff then { e with rowoff := e.cy } else e
  if e.cy ≥ e.rowoff + e.screenrows then { e with rowoff := e.cy - e.screenrows + 1 } else e

def processKey (e : Editor) : Key → Editor
  | .typed c _ => e.insertChar c
  | .enter => e.insertNewline
  | .backspace => e.deleteChar
  | .delKey => (e.moveCursor .right).deleteChar
  | .arrow a => e.moveCursor a
  | .homeKey => { e with cx := 0 }
  | .endKey => if e.cy < e.numrows then { e with cx := (e.line e.cy).length } else e
  | .pageUp => (moveCursor · .up)^[e.screenrows] { e with cy := e.rowoff }
  | .pageDown =>
    let cy := e.rowoff + e.screenrows - 1
    (moveCursor · .down)^[e.screenrows] { e with cy := if cy > e.numrows then e.numrows else cy }

def press (e : Editor) (k : Key) : Editor := e.scroll.processKey k

def lines (e : Editor) : List Text := e.rows.map Row.chars

def text (e : Editor) : Text := [10].intercalate e.lines

/-- The text in front of the cursor. The line below the last row is not part of the text. -/
def before (e : Editor) : Text :=
  if e.cy < e.numrows then (e.lines.take e.cy).flatMap (· ++ [10]) ++ (e.line e.cy).take e.cx else e.text

def after (e : Editor) : Text :=
  if e.cy < e.numrows then (e.line e.cy).drop e.cx ++ (e.lines.drop (e.cy + 1)).flatMap (10 :: ·) else []

def opening (e : Editor) : Text := if e.cy = e.numrows ∧ e.numrows ≠ 0 then [10] else []

def reference (e : Editor) : Key → Text
  | .typed c _ => e.before ++ e.opening ++ [c] ++ e.after
  | .enter => e.before ++ [10] ++ e.indentation ++ e.after
  | .backspace => if e.cy = e.numrows then e.text else e.before.dropLast ++ e.after
  | .delKey => e.before ++ e.after.tail
  | _ => e.text

lemma reference_typed (e : Editor) (c : UInt8) (hc) :
    e.reference (.typed c hc) = e.before ++ e.opening ++ [c] ++ e.after := rfl

lemma reference_enter (e : Editor) : e.reference .enter = e.before ++ [10] ++ e.indentation ++ e.after := rfl

lemma reference_backspace (e : Editor) : e.reference .backspace =
    if e.cy = e.numrows then e.text else e.before.dropLast ++ e.after := rfl

lemma reference_delKey (e : Editor) : e.reference .delKey = e.before ++ e.after.tail := rfl

/-- Enter is pressed in a text with rows, and Delete not behind the last byte of the last row, unless that is the
beginning of the text. On a screen without rows Page Up goes down instead, and there has to be a place for it. -/
def CarefulKey (e : Editor) : Key → Prop
  | .enter => e.numrows ≠ 0
  | .delKey => ¬ (e.cy + 1 = e.numrows ∧ e.cx = (e.line e.cy).length ∧ (0 < e.cx ∨ 0 < e.cy))
  | .pageUp => 0 < e.screenrows ∨ e.HasPlace e.cx (e.cy + 1)
  | _ => True

end Editor

section Lines
variable (above below : List Text) (s : Text)

lemma intercalate_cons (s : Text) : [10].intercalate (s :: below) = s ++ below.flatMap (10 :: ·) := by
  induction below generalizing s with
  | nil => simp
  | cons t below ih => rw [List.intercalate_cons_cons, ih, List.flatMap_cons, List.append_assoc]; rfl

lemma intercalate_append_cons :
    [10].intercalate (above ++ s :: below) = above.flatMap (· ++ [10]) ++ s ++ below.flatMap (10 :: ·) := by
  induction above with
  | nil => exact intercalate_cons below s
  | cons t above ih =>
    rw [List.cons_append, List.intercalate_cons_of_ne_nil (by simp), ih, List.flatMap_cons]
    simp only [List.append_assoc]

lemma intercalate_concat (s : Text) (h : above ≠ []) :
    [10].intercalate (above ++ [s]) = [10].intercalate above ++ 10 :: s := by
  obtain ⟨above, t, rfl⟩ := List.eq_nil_or_concat' above |>.resolve_left h
  rw [List.append_assoc, List.singleton_append, intercalate_append_cons, intercalate_append_cons]
  simp

end Lines

lemma map_chars_modify {f : Row → Row} {g : Text → Text} (h : ∀ r, (f r).chars = g r.chars) (rows : List Row) (i : ℕ) :
    (rows.modify i f).map Row.chars = (rows.map Row.chars).modify i g := by
  induction rows generalizing i with
  | nil => simp
  | cons r rows ih =>
    cases i with
    | zero => simp [h]
    | succ i => simp [ih]

namespace Editor
variable {e : Editor}

@[simp] lemma length_lines (e : Editor) : e.lines.length = e.numrows := List.length_map _

lemma line_eq (e : Editor) (i : ℕ) : e.line i = e.lines[i]?.getD [] := by
  rw [line, lines, List.getElem?_map]
  cases e.rows[i]? <;> rfl

structure On (e : Editor) (above : List Text) (l r : Text) (below : List Text) : Prop where
  lines : e.lines = above ++ (l ++ r) :: below
  cy : e.cy = above.length
  cx : e.cx = l.length

variable {above below : List Text} {l r : Text}

lemma exists_on (hv : e.Valid) (h : e.cy < e.numrows) : ∃ above l r below, e.On above l r below := by
  obtain ⟨above, row, below, hr, ha⟩ := exists_append_cons h
  have hl : e.line e.cy = row.chars := by simp [line, hr, ← ha]
  refine ⟨above.map Row.chars, row.chars.take e.cx, row.chars.drop e.cx, below.map Row.chars, ?_, ?_, ?_⟩
  · simp [lines, hr]
  · simp [ha]
  · have := hv.2
    rw [hl] at this
    simp [this]

namespace On

lemma lt (h : e.On above l r below) : e.cy < e.numrows := by
  rw [← length_lines, h.lines, h.cy]
  simp

lemma line (h : e.On above l r below) : e.line e.cy = l ++ r := by
  rw [line_eq, h.lines, h.cy]
  simp

lemma valid (h : e.On above l r below) : e.Valid := by
  refine ⟨h.lt.le, ?_⟩
  rw [h.line, h.cx]
  simp

lemma text (h : e.On above l r below) :
    e.text = above.flatMap (· ++ [10]) ++ l ++ r ++ below.flatMap (10 :: ·) := by
  rw [Editor.text, h.lines, intercalate_append_cons]
  simp only [List.append_assoc]

lemma before (h : e.On above l r below) : e.before = above.flatMap (· ++ [10]) ++ l := by
  rw [Editor.before, if_pos h.lt, h.line, h.lines, h.cy, h.cx]
  simp

lemma after (h : e.On above l r below) : e.after = r ++ below.flatMap (10 :: ·) := by
  have hd : (above ++ (l ++ r) :: below).drop (above.length + 1) = below := by
    rw [List.drop_append, List.drop_eq_nil_of_le (Nat.le_succ _), Nat.add_sub_cancel_left]
    rfl
  rw [Editor.after, if_pos h.lt, h.line, h.lines, h.cy, h.cx, hd]
  simp

lemma insertChar (h : e.On above l r below) (c : UInt8) : (e.insertChar c).On above (l ++ [c]) r below := by
  refine ⟨?_, h.cy, by simp [Editor.insertChar, h.cx]⟩
  have hl := h.lines
  rw [Editor.lines] at hl
  rw [Editor.lines, Editor.insertChar, if_neg h.lt.ne]
  dsimp only
  rw [map_chars_updateRow, map_chars_modify (g := fun s => s.insertIdx (if e.cx > s.length then s.length else e.cx) c)
    fun _ => rfl, hl, h.cy, h.cx, modify_length_append]
  simp

lemma indentation (h : e.On above l r below) :
    e.indentation = l.takeWhile fun c => c = 32 ∨ c = 9 := by
  rw [Editor.indentation, h.line, h.cx]
  simp

lemma insertNewline (h : e.On above l r below) :
    e.insertNewline.On (above ++ [l]) e.indentation r below := by
  have hl := h.lines
  rw [Editor.lines] at hl
  rw [Editor.insertNewline]
  by_cases hx : e.cx = 0
  · have hl0 : l = [] := List.eq_nil_of_length_eq_zero (h.cx ▸ hx)
    rw [if_pos (.inl hx), h.indentation, hl0]
    refine ⟨?_, by simp [h.cy], rfl⟩
    rw [Editor.lines]
    dsimp only
    rw [map_chars_insertRow _ _ _ _ h.lt.le, hl, h.cy, insertIdx_length_append, hl0]
    simp
  · rw [if_neg (not_or.2 ⟨hx, h.lt.ne⟩)]
    refine ⟨?_, by simp [h.cy], rfl⟩
    rw [Editor.lines]
    dsimp only
    have hi : (above ++ (l ++ r) :: below).insertIdx (above.length + 1) (e.indentation ++ r) =
        above ++ (l ++ r) :: (e.indentation ++ r) :: below := by
      simpa using insertIdx_length_append (above ++ [l ++ r]) below (e.indentation ++ r)
    rw [map_chars_updateRow, map_chars_modify (g := fun s => s.take e.cx) fun _ => rfl,
      map_chars_insertRow _ _ _ _ h.lt, take_indentation, h.line, hl, h.cy, h.cx, List.drop_left, hi,
      modify_length_append, List.take_left]
    simp

lemma deleteChar (c : UInt8) (h : e.On above (l ++ [c]) r below) : e.deleteChar.On above l r below := by
  have hl := h.lines
  have hx : e.cx = l.length + 1 := by simp [h.cx]
  rw [Editor.lines] at hl
  rw [Editor.deleteChar, if_neg (not_or.2 ⟨h.lt.ne, by omega⟩), if_pos (by omega)]
  refine ⟨?_, h.cy, by simp [hx]⟩
  rw [Editor.lines]
  dsimp only
  rw [map_chars_updateRow, map_chars_modify (g := fun s => if e.cx - 1 ≥ s.length then s else s.eraseIdx (e.cx - 1)),
    hl, h.cy, hx, modify_length_append]
  · simp
  · intro r
    rw [Row.deleteChar]
    split <;> rfl

lemma deleteChar_first {s : Text} (h : e.On (above ++ [s]) [] r below) : e.deleteChar.On above s r below := by
  have hl := h.lines
  have hy : e.cy = above.length + 1 := by simp [h.cy]
  have hx : e.cx = 0 := h.cx
  have ha : e.line above.length = s := by simp [line_eq, h.lines]
  rw [Editor.lines, List.nil_append, List.append_assoc, List.singleton_append] at hl
  rw [Editor.deleteChar, if_neg (not_or.2 ⟨h.lt.ne, by omega⟩), if_neg (by omega)]
  have he : (above ++ (s ++ r) :: r :: below).eraseIdx (above.length + 1) = above ++ (s ++ r) :: below := by
    simpa using eraseIdx_length_append (above ++ [s ++ r]) below r
  refine ⟨?_, by simp [hy], by simp [hy, ha]⟩
  rw [Editor.lines]
  dsimp only
  rw [map_chars_deleteRow, map_chars_updateRow, map_chars_modify (g := fun t => t ++ e.line e.cy) fun _ => rfl, hl,
    h.line, hy, Nat.add_sub_cancel, modify_length_append]
  exact he

end On

structure Below (e : Editor) : Prop where
  cy : e.cy = e.numrows
  cx : e.cx = 0

lemma below_of_valid (hv : e.Valid) (h : ¬ e.cy < e.numrows) : e.Below := by
  have hy : e.cy = e.numrows := Nat.le_antisymm hv.1 (not_lt.1 h)
  refine ⟨hy, Nat.eq_zero_of_le_zero ?_⟩
  have hx := hv.2
  rwa [line_eq, List.getElem?_eq_none (by simp [hy])] at hx

namespace Below

lemma valid (h : e.Below) : e.Valid := ⟨h.cy.le, h.cx.trans_le (Nat.zero_le _)⟩

lemma before (h : e.Below) : e.before = e.text := if_neg h.cy.not_lt

lemma after (h : e.Below) : e.after = [] := if_neg h.cy.not_lt

lemma insertChar (h : e.Below) (c : UInt8) : (e.insertChar c).On e.lines [c] [] [] := by
  refine ⟨?_, by simp [Editor.insertChar, h.cy], by simp [Editor.insertChar, h.cx]⟩
  rw [Editor.insertChar, if_pos h.cy, Editor.lines]
  dsimp only
  rw [map_chars_updateRow, map_chars_modify (g := fun s => s.insertIdx (if e.cx > s.length then s.length else e.cx) c)
    fun _ => rfl, map_chars_insertRow _ e.rows e.numrows [] le_rfl, h.cy, ← length_lines, ← lines,
    List.insertIdx_length_self, modify_length_append, h.cx]
  simp

lemma lines_insertNewline (h : e.Below) : e.insertNewline.lines = e.lines ++ [[]] := by
  rw [Editor.insertNewline, if_pos (.inl h.cx), lines]
  dsimp only
  rw [map_chars_insertRow _ _ _ _ h.cy.le, h.cy, ← length_lines, ← lines, List.insertIdx_length_self]

lemma insertNewline (h : e.Below) : e.insertNewline.Below := by
  have hn := congrArg List.length h.lines_insertNewline
  rw [length_lines, List.length_append, length_lines, List.length_singleton] at hn
  rw [Editor.insertNewline, if_pos (.inl h.cx)] at hn ⊢
  exact ⟨by rw [hn, ← h.cy], rfl⟩

end Below

lemma rows_moveCursor (e : Editor) (a : Arrow) : (e.moveCursor a).rows = e.rows := by
  cases a <;> rw [moveCursor] <;> split_ifs <;> rfl

lemma valid_moveCursor (h : e.cy ≤ e.numrows) (a : Arrow) : (e.moveCursor a).Valid := by
  have hclamp : ∀ d : Editor, d.cy ≤ d.numrows →
      Valid (if d.cx > (d.line d.cy).length then { d with cx := (d.line d.cy).length } else d) := by
    intro d hd
    split
    · exact ⟨hd, le_rfl⟩
    · next hx => exact ⟨hd, not_lt.1 hx⟩
  rw [moveCursor.eq_def]
  apply hclamp
  cases a with
  | left =>
    dsimp only
    split_ifs
    · exact h
    · exact (Nat.sub_le _ _).trans h
    · exact h
  | right =>
    dsimp only
    split_ifs with h1 h2
    · exact h
    · exact h2.le
    · exact h
  | up =>
    dsimp only
    split_ifs
    · exact (Nat.sub_le _ _).trans h
    · exact h
  | down =>
    dsimp only
    split_ifs with h1
    · exact h1.le
    · exact h

lemma rows_iterate_moveCursor (e : Editor) (a : Arrow) (n : ℕ) : ((moveCursor · a)^[n] e).rows = e.rows := by
  induction n with
  | zero => rfl
  | succ n ih => rw [Function.iterate_succ_apply', rows_moveCursor, ih]

lemma valid_iterate_moveCursor (h : e.cy ≤ e.numrows) (a : Arrow) (n : ℕ) (hn : 0 < n) :
    ((moveCursor · a)^[n] e).Valid := by
  have hcy : ∀ m, ((moveCursor · a)^[m] e).cy ≤ ((moveCursor · a)^[m] e).numrows := by
    intro m
    induction m with
    | zero => exact h
    | succ m ih =>
      rw [Function.iterate_succ_apply']
      exact (valid_moveCursor ih a).1
  obtain ⟨m, rfl⟩ := Nat.exists_eq_succ_of_ne_zero hn.ne'
  rw [Function.iterate_succ_apply']
  exact valid_moveCursor (hcy m) a

namespace On

lemma right {c : UInt8} (h : e.On above l (c :: r) below) : (e.moveCursor .right).On above (l ++ [c]) r below := by
  have hx : e.cx < (e.line e.cy).length := by simp [h.line, h.cx]
  have hm : e.moveCursor .right = { e with cx := e.cx + 1 } := by
    have hc : e.cy < e.numrows ∧ e.cx < (e.line e.cy).length := ⟨h.lt, hx⟩
    simp only [moveCursor, if_pos hc]
    exact if_neg (not_lt.2 hx)
  rw [hm]
  refine ⟨?_, h.cy, by simp [h.cx]⟩
  change e.lines = _
  simp [h.lines]

lemma right_end {s : Text} (h : e.On above l [] (s :: below)) : (e.moveCursor .right).On (above ++ [l]) [] s below := by
  have hx : ¬ e.cx < (e.line e.cy).length := by simp [h.line, h.cx]
  have hy : e.cy + 1 < e.numrows := by
    rw [← length_lines, h.lines, h.cy]
    simp
  have hm : e.moveCursor .right = { e with cy := e.cy + 1, cx := 0 } := by
    have hc : ¬ (e.cy < e.numrows ∧ e.cx < (e.line e.cy).length) := fun hn => hx hn.2
    simp only [moveCursor, if_neg hc, if_pos hy]
    exact if_neg (Nat.not_lt_zero _)
  rw [hm]
  refine ⟨?_, by simp [h.cy], rfl⟩
  change e.lines = _
  simp [h.lines]

lemma right_last (h : e.On above l [] []) : e.moveCursor .right = e := by
  have hx : ¬ e.cx < (e.line e.cy).length := by simp [h.line, h.cx]
  have hy : ¬ e.cy + 1 < e.numrows := by
    rw [← length_lines, h.lines, h.cy]
    simp
  have hc : ¬ (e.cy < e.numrows ∧ e.cx < (e.line e.cy).length) := fun hn => hx hn.2
  simp only [moveCursor, if_neg hc, if_neg hy]
  exact if_neg (not_lt.2 h.valid.2)

end On

lemma Below.right (h : e.Below) : e.moveCursor .right = e := by
  have hc : ¬ (e.cy < e.numrows ∧ e.cx < (e.line e.cy).length) := fun hn => hn.1.ne h.cy
  have hy : ¬ e.cy + 1 < e.numrows := by have := h.cy; omega
  simp only [moveCursor, if_neg hc, if_neg hy]
  exact if_neg (not_lt.2 h.valid.2)

end Editor
end MyOS.User.Edit
