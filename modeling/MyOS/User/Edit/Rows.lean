import MyOS.Library.Propagation
import MyOS.User.Strtol

/-! The colours of a row of C in the editor. -/

namespace MyOS.User.Edit

open Strtol (isspace isdigit isxdigit)

abbrev Text := List UInt8

inductive Hl
  | normal | comment | keyword | type | string | number | match | preproc
  deriving DecidableEq

def ascii (s : String) : Text := s.toList.map fun c => UInt8.ofNat c.toNat

def keywords : List Text := ["if", "else", "for", "while", "do", "switch", "case", "default", "break", "continue",
  "return", "goto", "sizeof", "struct", "union", "enum", "typedef", "static", "extern", "const", "volatile",
  "inline"].map ascii

def types : List Text := ["int", "char", "void", "long", "short", "unsigned", "signed", "bool", "float", "double",
  "size_t", "ssize_t", "uint8_t", "uint16_t", "uint32_t", "uint64_t", "int8_t", "int16_t", "int32_t", "int64_t",
  "uintptr_t"].map ascii

def isSeparator (c : UInt8) : Bool := isspace c ∨ c = 0 ∨ c ∈ ascii ",.()+-/*=~%<>[];\x7b\x7d&|!^?:"

def matchWord (p w : Text) : Bool := p.take w.length = w ∧ isSeparator ((p.drop w.length).headD 0)

/-- The variables of the loop of `update_syntax`; `inString` is 0 outside of strings, and `prevHl` is the colour of the
character before. -/
structure Scan where
  inComment : Bool
  inString : UInt8 := 0
  prevSep : Bool := true
  prevHl : Hl := .normal

def tabStop : ℕ := 4

def scan (preproc : Bool) (s : Scan) (p : Text) : List Hl × Bool :=
  match p with
  | [] => ([], s.inComment)
  | c :: p =>
    if s.inComment then
      match p with
      | d :: q =>
        if c = 42 ∧ d = 47 then
          let r := scan preproc { s with inComment := false, prevSep := true, prevHl := .comment } q
          (.comment :: .comment :: r.1, r.2)
        else
          let r := scan preproc { s with prevHl := .comment } (d :: q)
          (.comment :: r.1, r.2)
      | [] => ([.comment], true)
    else if s.inString ≠ 0 then
      match p with
      | d :: q =>
        if c = 92 then
          let r := scan preproc { s with prevHl := .string } q
          (.string :: .string :: r.1, r.2)
        else
          let inString := if c = s.inString then 0 else s.inString
          let r := scan preproc { s with inString, prevSep := true, prevHl := .string } (d :: q)
          (.string :: r.1, r.2)
      | [] => ([.string], false)
    else if c = 47 ∧ p.head? = some 47 then (List.replicate (p.length + 1) .comment, false)
    else if c = 47 ∧ p.head? = some 42 then
      let r := scan preproc { s with inComment := true, prevHl := .comment } p.tail
      (.comment :: .comment :: r.1, r.2)
    else if c = 34 ∨ c = 39 then
      let r := scan preproc { s with inString := c, prevHl := .string } p
      (.string :: r.1, r.2)
    else if preproc then
      let r := scan preproc { s with prevHl := .preproc } p
      (.preproc :: r.1, r.2)
    else if (isdigit c ∧ (s.prevSep ∨ s.prevHl = .number)) ∨ ((c = 46 ∨ c = 120 ∨ isxdigit c) ∧ s.prevHl = .number) then
      let r := scan preproc { s with prevSep := false, prevHl := .number } p
      (.number :: r.1, r.2)
    else
      let word (ws : List Text) := if s.prevSep then ws.find? (matchWord (c :: p)) else none
      match word keywords with
      | some w =>
        -- No word is empty: `i += n` goes over `c` and `n - 1` more.
        let r := scan preproc { s with prevSep := false, prevHl := .keyword } (p.drop (w.length - 1))
        (List.replicate w.length .keyword ++ r.1, r.2)
      | none =>
        match word types with
        | some w =>
          let r := scan preproc { s with prevSep := false, prevHl := .type } (p.drop (w.length - 1))
          (List.replicate w.length .type ++ r.1, r.2)
        | none =>
          let r := scan preproc { s with prevSep := isSeparator c, prevHl := .normal } p
          (.normal :: r.1, r.2)
termination_by p.length
decreasing_by all_goals grind

/-- What `update_syntax` finds for a row, when the row before has left a comment open or not. -/
def highlight (inComment : Bool) (render : Text) : List Hl × Bool :=
  scan ((render.dropWhile isspace).head? = some 35) { inComment } render

def expandTabs : ℕ → Text → Text
  | _, [] => []
  | idx, c :: p =>
    if c = 9 then List.replicate (tabStop - idx % tabStop) 32 ++ expandTabs (idx + (tabStop - idx % tabStop)) p
    else c :: expandTabs (idx + 1) p

def render (chars : Text) : Text := expandTabs 0 chars

end MyOS.User.Edit

/-! The rows of the editor, the cursor, and what the editing keys do to them. -/

namespace MyOS.User.Edit

structure Row where
  chars : Text
  render : Text := []
  hl : List Hl := []
  openComment : Bool := false
  deriving DecidableEq

structure Editor where
  cx : ℕ := 0
  cy : ℕ := 0
  rowoff : ℕ := 0
  screenrows : ℕ
  rows : List Row := []
  cSyntax : Bool

def commentAbove (rows : List Row) (i : ℕ) : Bool := 0 < i ∧ rows[i - 1]?.any Row.openComment

def updateSyntax (cSyntax : Bool) (rows : List Row) (i : ℕ) : List Row :=
  match rows[i]? with
  | none => rows
  | some r =>
    if cSyntax then
      let h := highlight (commentAbove rows i) r.render
      let rows' := rows.set i { r with hl := h.1, openComment := h.2 }
      -- A comment has been opened or closed: the row below is next.
      if h.2 ≠ r.openComment ∧ i + 1 < rows.length then updateSyntax cSyntax rows' (i + 1) else rows'
    else rows.set i { r with hl := List.replicate r.render.length .normal }
termination_by rows.length - i
decreasing_by grind

def updateRow (cSyntax : Bool) (rows : List Row) (i : ℕ) : List Row :=
  updateSyntax cSyntax (rows.modify i fun r => { r with render := render r.chars }) i

def insertRow (cSyntax : Bool) (rows : List Row) (i : ℕ) (s : Text) : List Row :=
  if i > rows.length then rows else updateRow cSyntax (rows.insertIdx i { chars := s }) i

def deleteRow (cSyntax : Bool) (rows : List Row) (i : ℕ) : List Row :=
  if i ≥ rows.length then rows
  else
    let rows := rows.eraseIdx i
    if i < rows.length then updateSyntax cSyntax rows i else rows

def Row.insertChar (r : Row) (i : ℕ) (c : UInt8) : Row :=
  { r with chars := r.chars.insertIdx (if i > r.chars.length then r.chars.length else i) c }

def Row.append (r : Row) (s : Text) : Row := { r with chars := r.chars ++ s }

def Row.deleteChar (r : Row) (i : ℕ) : Row :=
  if i ≥ r.chars.length then r else { r with chars := r.chars.eraseIdx i }

namespace Editor

def numrows (e : Editor) : ℕ := e.rows.length

def line (e : Editor) (i : ℕ) : Text := e.rows[i]?.elim [] Row.chars

def insertChar (e : Editor) (c : UInt8) : Editor :=
  let rows := if e.cy = e.numrows then insertRow e.cSyntax e.rows e.numrows [] else e.rows
  { e with rows := updateRow e.cSyntax (rows.modify e.cy (Row.insertChar · e.cx c)) e.cy, cx := e.cx + 1 }

def indentation (e : Editor) : Text := ((e.line e.cy).take e.cx).takeWhile fun c => c = 32 ∨ c = 9

lemma take_indentation (e : Editor) : (e.line e.cy).take e.indentation.length = e.indentation := by
  have hp : e.indentation <+: e.line e.cy :=
    (List.takeWhile_prefix _).trans (List.take_prefix _ _)
  exact (List.prefix_iff_eq_take.1 hp).symm

def insertNewline (e : Editor) : Editor :=
  if e.cx = 0 ∨ e.cy = e.numrows then
    { e with rows := insertRow e.cSyntax e.rows e.cy [], cy := e.cy + 1, cx := 0 }
  else
    let indent := e.indentation.length
    let buf := (e.line e.cy).take indent ++ (e.line e.cy).drop e.cx
    let rows := insertRow e.cSyntax e.rows (e.cy + 1) buf
    let rows := rows.modify e.cy fun r => { r with chars := r.chars.take e.cx }
    { e with rows := updateRow e.cSyntax rows e.cy, cy := e.cy + 1, cx := indent }

def deleteChar (e : Editor) : Editor :=
  if e.cy = e.numrows ∨ e.cx = 0 ∧ e.cy = 0 then e
  else if e.cx > 0 then
    let rows := e.rows.modify e.cy (Row.deleteChar · (e.cx - 1))
    { e with rows := updateRow e.cSyntax rows e.cy, cx := e.cx - 1 }
  else
    let rows := e.rows.modify (e.cy - 1) (Row.append · (e.line e.cy))
    let rows := updateRow e.cSyntax rows (e.cy - 1)
    { e with rows := deleteRow e.cSyntax rows e.cy, cx := (e.line (e.cy - 1)).length, cy := e.cy - 1 }

def HasPlace (e : Editor) (cx cy : ℕ) : Prop := cy ≤ e.numrows ∧ cx ≤ (e.line cy).length

def Valid (e : Editor) : Prop := e.HasPlace e.cx e.cy

instance (e : Editor) (cx cy : ℕ) : Decidable (e.HasPlace cx cy) := inferInstanceAs (Decidable (_ ∧ _))

end Editor

def Editor.appendRow (e : Editor) (s : Text) : Editor :=
  { e with rows := insertRow e.cSyntax e.rows e.numrows s }

def Editor.opened (screenrows : ℕ) (cSyntax : Bool) (text : List Text) : Editor :=
  text.foldl Editor.appendRow { screenrows, cSyntax }

variable (cSyntax : Bool)

/-- A row as `update_row` leaves it in a C file, below a row that has left a comment open or not. -/
def Row.paint (inComment : Bool) (r : Row) : Row :=
  let h := highlight inComment (Edit.render r.chars)
  { r with render := Edit.render r.chars, hl := h.1, openComment := h.2 }

section Lists
variable {α β : Type*}

@[simp] lemma modify_length_append (f : α → α) (l m : List α) (a : α) :
    (l ++ a :: m).modify l.length f = l ++ f a :: m := by
  induction l with
  | nil => simp
  | cons b l ih => simp [ih]

@[simp] lemma insertIdx_length_append (l m : List α) (a : α) : (l ++ m).insertIdx l.length a = l ++ a :: m := by
  induction l with
  | nil => simp
  | cons b l ih => simp [ih]

@[simp] lemma eraseIdx_length_append (l m : List α) (a : α) : (l ++ a :: m).eraseIdx l.length = l ++ m := by
  simp [List.eraseIdx_append]

lemma exists_append_cons {l : List α} {i : ℕ} (h : i < l.length) :
    ∃ m a n, l = m ++ a :: n ∧ m.length = i :=
  ⟨l.take i, l[i], l.drop (i + 1), by simp, by simp; omega⟩

lemma map_set_of_eq (f : α → β) {l : List α} {i : ℕ} {a b : α} (h : l[i]? = some a) (hf : f b = f a) :
    (l.set i b).map f = l.map f := by
  apply List.ext_getElem?
  intro k
  by_cases hk : i = k
  · subst hk
    obtain ⟨hi, hl⟩ := List.getElem?_eq_some_iff.1 h
    simp [hi, hl, hf]
  · simp [List.getElem?_set_ne hk]

end Lists

@[simp] lemma map_chars_updateSyntax (rows : List Row) (i : ℕ) :
    (updateSyntax cSyntax rows i).map Row.chars = rows.map Row.chars := by
  induction rows, i using updateSyntax.induct cSyntax with
  | case1 rows i h => rw [updateSyntax, h]
  | case2 rows i r hr hc h rows' hg ih =>
    subst hc
    rw [updateSyntax, hr]
    simp only [if_true]
    rw [if_pos hg]
    exact ih.trans (map_set_of_eq _ hr rfl)
  | case3 rows i r hr hc h hg =>
    subst hc
    rw [updateSyntax, hr]
    simp only [if_true]
    rw [if_neg hg]
    exact map_set_of_eq _ hr rfl
  | case4 rows i r hr hc =>
    rw [updateSyntax, hr]
    simp only [hc]
    exact map_set_of_eq _ hr rfl

@[simp] lemma map_chars_updateRow (rows : List Row) (i : ℕ) :
    (updateRow cSyntax rows i).map Row.chars = rows.map Row.chars := by
  rw [updateRow, map_chars_updateSyntax]
  apply List.ext_getElem?
  intro k
  by_cases hk : i = k <;> simp [hk, Function.comp_def]

lemma map_chars_insertRow (rows : List Row) (i : ℕ) (s : Text) (h : i ≤ rows.length) :
    (insertRow cSyntax rows i s).map Row.chars = (rows.map Row.chars).insertIdx i s := by
  rw [insertRow, if_neg (by omega), map_chars_updateRow, List.map_insertIdx]

lemma map_chars_deleteRow (rows : List Row) (i : ℕ) :
    (deleteRow cSyntax rows i).map Row.chars = (rows.map Row.chars).eraseIdx i := by
  rw [deleteRow]
  split
  · next h => rw [List.eraseIdx_of_length_le (by simpa using h)]
  · dsimp only
    split
    · rw [map_chars_updateSyntax, List.eraseIdx_map]
    · rw [List.eraseIdx_map]

end MyOS.User.Edit
