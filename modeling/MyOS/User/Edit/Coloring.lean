import MyOS.User.Edit.Rows

/-! Editing a C file: the colours are those of the whole text, except below some rows that Enter splits. -/

namespace MyOS.User.Edit

open MyOS.Propagation

/-- The text as `update_syntax` colours it when it is run from the first row to the last. -/
def recolour (text : List Text) : List Row :=
  (List.range text.length).foldl (updateSyntax true) (text.map fun s => { chars := s, render := render s })

def Editor.InSync (e : Editor) : Prop := e.rows = recolour (e.rows.map Row.chars)

def leavesOpen (inComment : Bool) (s : Text) : Bool := (highlight inComment (render s)).2

abbrev Painted : Bool → List Row → Prop := Settled Row.paint Row.openComment
abbrev repaint : Bool → List Row → List Row := settle Row.paint Row.openComment
abbrev lastOpen : List Row → Bool := last Row.openComment false

def Row.Rendered (r : Row) : Prop := r.render = Edit.render r.chars

lemma Row.rendered_paint (s : Bool) (r : Row) : (r.paint s).Rendered := rfl

lemma Row.paint_paint (s t : Bool) (r : Row) : (r.paint t).paint s = r.paint s := rfl

lemma Row.paint_congr (s : Bool) (a b : Row) (h : a.chars = b.chars) : a.paint s = b.paint s := by
  rw [paint, paint, h]

lemma rendered_of_painted {s : Bool} {rows : List Row} (h : Painted s rows) : ∀ r ∈ rows, r.Rendered := by
  induction rows generalizing s with
  | nil => simp
  | cons a rows ih =>
    intro r hr
    rcases List.mem_cons.1 hr with rfl | hr
    · rw [Row.Rendered, ← h.1]
      rfl
    · exact ih h.2 r hr

lemma commentAbove_append (above rows : List Row) :
    commentAbove (above ++ rows) above.length = lastOpen above := by
  cases above using List.reverseRecOn with
  | nil => rfl
  | append_singleton above a => simp [commentAbove, lastOpen]

lemma updateSyntax_append (above : List Row) {rows : List Row} (hr : ∀ r ∈ rows, r.Rendered) :
    updateSyntax true (above ++ rows) above.length = above ++ repaint (lastOpen above) rows := by
  induction rows generalizing above with
  | nil =>
    rw [updateSyntax, List.append_nil, List.getElem?_eq_none le_rfl]
    simp [repaint, settle]
  | cons r rows ih =>
    have hp : { r with hl := (highlight (lastOpen above) r.render).1,
                       openComment := (highlight (lastOpen above) r.render).2 } = r.paint (lastOpen above) := by
      rw [Row.paint, ← show r.render = render r.chars from hr r List.mem_cons_self]
    have ho : (highlight (lastOpen above) r.render).2 = (r.paint (lastOpen above)).openComment :=
      congrArg Row.openComment hp
    have hs : (above ++ r :: rows).set above.length (r.paint (lastOpen above)) =
        above ++ r.paint (lastOpen above) :: rows := by simp
    rw [updateSyntax]
    simp only [List.getElem?_append_right le_rfl, Nat.sub_self, List.getElem?_cons_zero, if_true, commentAbove_append]
    rw [hp, ho, hs, repaint, settle]
    have ih := ih (above ++ [r.paint (lastOpen above)]) fun b hb => hr b (List.mem_cons_of_mem _ hb)
    simp only [List.append_assoc, List.singleton_append, List.length_append, List.length_singleton, lastOpen,
      last_append_singleton] at ih
    by_cases he : (r.paint (lastOpen above)).openComment = r.openComment
    · rw [if_neg fun h => h.1 he, if_pos he]
    · rw [if_neg he]
      cases rows with
      | nil => simp [settle]
      | cons b rows => rw [if_pos ⟨he, by simp⟩, ih]

lemma updateRow_append (above : List Row) (r : Row) {rows : List Row} (hr : ∀ r ∈ rows, r.Rendered) :
    updateRow true (above ++ r :: rows) above.length = above ++ repaint (lastOpen above) (r :: rows) := by
  have hm : (above ++ r :: rows).modify above.length (fun r => { r with render := render r.chars }) =
      above ++ { r with render := render r.chars } :: rows := by simp
  rw [updateRow, hm, updateSyntax_append]
  · rfl
  · intro b hb
    rcases List.mem_cons.1 hb with rfl | hb
    · rfl
    · exact hr b hb

lemma insertRow_append (above : List Row) (s : Text) {rows : List Row} (hr : ∀ r ∈ rows, r.Rendered) :
    insertRow true (above ++ rows) above.length s = above ++ repaint (lastOpen above) ({ chars := s } :: rows) := by
  have hi : (above ++ rows).insertIdx above.length { chars := s } = above ++ { chars := s } :: rows := by simp
  rw [insertRow, if_neg (by simp), hi, updateRow_append _ _ hr]

lemma deleteRow_append (above : List Row) (r : Row) {rows : List Row} (hr : ∀ r ∈ rows, r.Rendered) :
    deleteRow true (above ++ r :: rows) above.length = above ++ repaint (lastOpen above) rows := by
  have he : (above ++ r :: rows).eraseIdx above.length = above ++ rows := by simp
  rw [deleteRow, if_neg (by simp), he]
  dsimp only
  split
  · exact updateSyntax_append _ hr
  · next h =>
    cases rows with
    | nil => rfl
    | cons b rows => simp at h

lemma map_chars_foldl (rows : List Row) (l : List ℕ) :
    (l.foldl (updateSyntax true) rows).map Row.chars = rows.map Row.chars := by
  induction l generalizing rows with
  | nil => rfl
  | cons i l ih => rw [List.foldl_cons, ih, map_chars_updateSyntax]

lemma map_chars_recolour (text : List Text) : (recolour text).map Row.chars = text := by
  rw [recolour, map_chars_foldl, List.map_map]
  exact List.map_id _

lemma foldl_painted {rows : List Row} (hr : ∀ r ∈ rows, r.Rendered) (k : ℕ) (hk : k ≤ rows.length) :
    ∃ above below, (List.range k).foldl (updateSyntax true) rows = above ++ below ∧ above.length = k ∧
      Painted false above ∧ ∀ r ∈ below, r.Rendered := by
  induction k with
  | zero => exact ⟨[], rows, rfl, rfl, trivial, hr⟩
  | succ k ih =>
    obtain ⟨above, below, he, hl, ha, hb⟩ := ih (by omega)
    have hn := congrArg List.length (map_chars_foldl rows (List.range k))
    rw [he] at hn
    cases below with
    | nil => simp at hn; omega
    | cons b below =>
      obtain ⟨rest, hrest⟩ : ∃ rest, repaint (lastOpen above) (b :: below) = b.paint (lastOpen above) :: rest :=
        ⟨_, rfl⟩
      have hall : ∀ r ∈ repaint (lastOpen above) (b :: below), r.Rendered :=
        forall_settle_cons Row.rendered_paint _ _ fun r h => hb r (List.mem_cons_of_mem _ h)
      refine ⟨above ++ [b.paint (lastOpen above)], rest, ?_, by simp [hl],
        Settled.append_iff.2 ⟨ha, rfl, trivial⟩, ?_⟩
      · rw [List.range_succ, List.foldl_append, he, ← hl, List.foldl_cons, updateSyntax_append above hb, hrest]
        simp
      · intro r h
        exact hall r (hrest ▸ List.mem_cons_of_mem _ h)

lemma painted_recolour (text : List Text) : Painted false (recolour text) := by
  have hr : ∀ r ∈ text.map fun s => ({ chars := s, render := render s } : Row), r.Rendered := by
    intro r h
    obtain ⟨s, _, rfl⟩ := List.mem_map.1 h
    rfl
  obtain ⟨above, below, he, hl, ha, _⟩ := foldl_painted hr text.length (by simp)
  have hn := congrArg List.length he
  have hc := congrArg List.length (map_chars_recolour text)
  have hb : below = [] := by
    apply List.eq_nil_of_length_eq_zero
    rw [List.length_map, recolour, hn, List.length_append] at hc
    omega
  rw [recolour, he, hb, List.append_nil]
  exact ha

lemma Editor.inSync_iff (e : Editor) : e.InSync ↔ Painted false e.rows := by
  constructor
  · intro h
    rw [h]
    exact painted_recolour _
  · intro h
    exact h.eq_of_map_eq Row.paint_congr (painted_recolour _) (map_chars_recolour _).symm

lemma updateRow_painted {rows : List Row} (h : Painted false rows) (i : ℕ) {f : Row → Row}
    (hf : ∀ r, (f r).openComment = r.openComment) : Painted false (updateRow true (rows.modify i f) i) := by
  by_cases hi : i < rows.length
  · obtain ⟨above, r, below, rfl, rfl⟩ := exists_append_cons hi
    obtain ⟨ha, hr⟩ := Settled.append_iff.1 h
    rw [modify_length_append, updateRow_append above (f r) (rendered_of_painted hr.2)]
    refine Settled.settle_append Row.paint_paint ha ?_
    rw [hf]
    exact hr.2
  · have hn : rows[i]? = none := List.getElem?_eq_none (by omega)
    rw [List.modify_eq_self (by omega), updateRow, List.modify_eq_self (by omega), updateSyntax, hn]
    exact h

lemma insertRow_painted_iff {above below : List Row} (h : Painted false (above ++ below)) (s : Text) :
    Painted false (insertRow true (above ++ below) above.length s) ↔
      leavesOpen (lastOpen above) s ∨ Painted false below := by
  obtain ⟨ha, hb⟩ := Settled.append_iff.1 h
  rw [insertRow_append above s (rendered_of_painted hb), Painted, Settled.append_iff, and_iff_right ha, repaint,
    Settled.settle_cons_iff Row.paint_paint hb, ne_eq, Bool.not_eq_false]
  rfl

lemma insertRow_nil_painted {rows : List Row} (h : Painted false rows) (i : ℕ) :
    Painted false (insertRow true rows i []) := by
  by_cases hi : i ≤ rows.length
  · obtain ⟨above, below, rfl, rfl⟩ : ∃ above below, rows = above ++ below ∧ above.length = i :=
      ⟨rows.take i, rows.drop i, by simp, by simp [hi]⟩
    rw [insertRow_painted_iff h]
    -- An empty row leaves what it finds.
    cases ho : lastOpen above with
    | true => exact .inl (by simp [leavesOpen, highlight, render, expandTabs, scan])
    | false => exact .inr (ho ▸ (Settled.append_iff.1 h).2)
  · rwa [insertRow, if_pos (by omega)]

lemma split_painted_iff {above below : List Row} {r : Row} (h : Painted false (above ++ r :: below)) (lower : Text)
    (k : ℕ) :
    Painted false (updateRow true ((insertRow true (above ++ r :: below) (above.length + 1) lower).modify above.length
        fun r => { r with chars := r.chars.take k }) above.length) ↔
      leavesOpen r.openComment lower ∨ leavesOpen (leavesOpen (lastOpen above) (r.chars.take k)) lower ∨
        Painted false below := by
  obtain ⟨ha, _, hb⟩ := Settled.append_iff.1 h
  have hr : ∀ x ∈ repaint r.openComment ({ chars := lower } :: below), x.Rendered :=
    forall_settle_cons Row.rendered_paint _ _ (rendered_of_painted hb)
  have hi : insertRow true (above ++ r :: below) (above.length + 1) lower =
      above ++ r :: repaint r.openComment ({ chars := lower } :: below) := by
    simpa [lastOpen] using insertRow_append (above ++ [r]) lower (rendered_of_painted hb)
  rw [hi, modify_length_append, updateRow_append above _ hr, Painted, Settled.append_iff, and_iff_right ha]
  rw [repaint, Settled.settle_settle_iff (a := { r with chars := r.chars.take k }) Row.paint_paint hb, ne_eq, ne_eq,
    Bool.not_eq_false, Bool.not_eq_false]
  rfl

lemma deleteRow_painted {rows : List Row} (h : Painted false rows) (i : ℕ) : Painted false (deleteRow true rows i) := by
  by_cases hi : i < rows.length
  · obtain ⟨above, r, below, rfl, rfl⟩ := exists_append_cons hi
    obtain ⟨ha, _, hb⟩ := Settled.append_iff.1 h
    rw [deleteRow_append above r (rendered_of_painted hb), Painted, Settled.append_iff]
    refine ⟨ha, ?_⟩
    cases below with
    | nil => trivial
    | cons b below => exact Settled.settle_cons Row.paint_paint hb.2
  · rwa [deleteRow, if_pos (by omega)]

inductive Op
  | insertChar (c : UInt8)
  | insertNewline
  | deleteChar
  deriving DecidableEq

structure Step where
  cx : ℕ
  cy : ℕ
  op : Op

namespace Editor

def apply (e : Editor) : Op → Editor
  | .insertChar c => e.insertChar c
  | .insertNewline => e.insertNewline
  | .deleteChar => e.deleteChar

/-- Enter does no harm at the border of a row, where either half ends in a comment, or where the row below has the same
colours in a comment as outside of one. -/
def Careful (e : Editor) : Op → Prop
  | .insertNewline =>
    let upper := (e.line e.cy).take e.cx
    let lower := e.indentation ++ (e.line e.cy).drop e.cx
    let wasOpen := commentAbove e.rows (e.cy + 1)
    e.cx = 0 ∨ e.cy = e.numrows ∨ leavesOpen wasOpen lower ∨
      leavesOpen (leavesOpen (commentAbove e.rows e.cy) upper) lower ∨
      ∀ r ∈ e.rows[e.cy + 1]?, highlight false r.render = highlight wasOpen r.render
  | _ => True

lemma painted_insertChar {e : Editor} (hc : e.cSyntax = true) (h : Painted false e.rows) (c : UInt8) :
    Painted false (e.insertChar c).rows := by
  have hr : Painted false (if e.cy = e.numrows then insertRow e.cSyntax e.rows e.numrows [] else e.rows) := by
    rw [hc]
    split
    · exact insertRow_nil_painted h _
    · exact h
  rw [insertChar, hc]
  rw [hc] at hr
  exact updateRow_painted hr _ fun _ => rfl

lemma painted_deleteChar {e : Editor} (hc : e.cSyntax = true) (h : Painted false e.rows) :
    Painted false e.deleteChar.rows := by
  rw [deleteChar]
  split
  · exact h
  · rw [hc]
    split
    · apply updateRow_painted h
      intro r
      rw [Row.deleteChar]
      split <;> rfl
    · apply deleteRow_painted
      exact updateRow_painted h _ fun _ => rfl

lemma painted_below_iff {above below : List Row} {r : Row} (h : Painted false (above ++ r :: below)) :
    Painted false below ↔ ∀ b ∈ (above ++ r :: below)[above.length + 1]?,
      highlight false b.render = highlight r.openComment b.render := by
  obtain ⟨_, _, hb⟩ := Settled.append_iff.1 h
  have hg : (above ++ r :: below)[above.length + 1]? = below[0]? := by
    rw [List.getElem?_append_right (Nat.le_add_right _ _), Nat.add_sub_cancel_left]
    rfl
  rw [hg]
  cases below with
  | nil => simp [Painted, Settled]
  | cons b below =>
    have hr : b.render = Edit.render b.chars := rendered_of_painted hb b List.mem_cons_self
    obtain ⟨hp, hs⟩ := hb
    have hl : Painted false (b :: below) ↔ b.paint false = b.paint r.openComment := by
      rw [hp]
      exact and_iff_left hs
    simp only [hl, List.getElem?_cons_zero, Option.mem_some_iff, forall_eq', hr, Row.paint, Row.mk.injEq, true_and,
      Prod.ext_iff]

lemma painted_insertNewline_iff {e : Editor} (hc : e.cSyntax = true) (hv : e.Valid) (h : Painted false e.rows) :
    Painted false e.insertNewline.rows ↔ e.Careful .insertNewline := by
  rw [insertNewline, Careful]
  by_cases he : e.cx = 0 ∨ e.cy = e.numrows
  · rw [if_pos he, hc]
    exact iff_of_true (insertRow_nil_painted h _) (he.elim Or.inl fun h => Or.inr (Or.inl h))
  · rw [if_neg he, hc]
    obtain ⟨hx, hy⟩ := not_or.1 he
    simp only [hx, hy, false_or]
    obtain ⟨above, r, below, hrows, hl⟩ := exists_append_cons (lt_of_le_of_ne hv.1 hy)
    have hline : e.line e.cy = r.chars := by simp [line, hrows, ← hl]
    have hopen : commentAbove e.rows (e.cy + 1) = r.openComment := by simp [commentAbove, hrows, ← hl]
    have hup : commentAbove e.rows e.cy = lastOpen above := by rw [hrows, ← hl, commentAbove_append]
    rw [take_indentation, hline, hopen, hup, hrows, ← hl, split_painted_iff (hrows ▸ h), painted_below_iff (hrows ▸ h)]

lemma painted_apply_iff {e : Editor} (hc : e.cSyntax = true) (hv : e.Valid) (h : Painted false e.rows) (op : Op) :
    Painted false (e.apply op).rows ↔ e.Careful op := by
  cases op with
  | insertChar c => exact iff_of_true (painted_insertChar hc h c) trivial
  | insertNewline => exact painted_insertNewline_iff hc hv h
  | deleteChar => exact iff_of_true (painted_deleteChar hc h) trivial

lemma cSyntax_apply (e : Editor) (op : Op) : (e.apply op).cSyntax = e.cSyntax := by
  cases op with
  | insertChar c => rfl
  | insertNewline =>
    rw [apply, insertNewline]
    split <;> rfl
  | deleteChar =>
    rw [apply, deleteChar]
    split_ifs <;> rfl

def step (e : Editor) (s : Step) : Editor :=
  if e.HasPlace s.cx s.cy then { e with cx := s.cx, cy := s.cy }.apply s.op else e

def SafeStep (e : Editor) (s : Step) : Prop :=
  e.HasPlace s.cx s.cy → { e with cx := s.cx, cy := s.cy }.Careful s.op

lemma inSync_step_iff {e : Editor} (hc : e.cSyntax = true) (h : e.InSync) (s : Step) :
    (e.step s).InSync ↔ e.SafeStep s := by
  rw [inSync_iff] at h ⊢
  rw [step, SafeStep]
  split
  · next hp => rw [painted_apply_iff (e := { e with cx := s.cx, cy := s.cy }) hc hp h, forall_prop_of_true hp]
  · next hp => exact iff_of_true h fun hq => absurd hq hp

lemma cSyntax_steps (e : Editor) (steps : List Step) : (steps.foldl step e).cSyntax = e.cSyntax := by
  induction steps generalizing e with
  | nil => rfl
  | cons s steps ih =>
    rw [List.foldl_cons, ih, step]
    split
    · rw [cSyntax_apply]
    · rfl

lemma inSync_steps_iff {e : Editor} (hc : e.cSyntax = true) (h : e.InSync) (steps : List Step) :
    (∀ before, before <+: steps → (before.foldl step e).InSync) ↔
      ∀ before s, before ++ [s] <+: steps → (before.foldl step e).SafeStep s := by
  constructor
  · intro hs before s hb
    have hd := hs _ hb
    rw [List.foldl_append] at hd
    have hi := hs before ((List.prefix_append _ _).trans hb)
    exact (inSync_step_iff (by rw [cSyntax_steps, hc]) hi s).1 hd
  · intro hs before hb
    induction before using List.reverseRecOn with
    | nil => exact h
    | append_singleton before s ih =>
      have hi := ih ((List.prefix_append _ _).trans hb)
      rw [List.foldl_append]
      exact (inSync_step_iff (by rw [cSyntax_steps, hc]) hi s).2 (hs before s hb)

lemma cSyntax_foldl_appendRow (e : Editor) (text : List Text) : (text.foldl appendRow e).cSyntax = e.cSyntax := by
  induction text generalizing e with
  | nil => rfl
  | cons s text ih => rw [List.foldl_cons, ih, appendRow]

lemma painted_foldl_appendRow {e : Editor} (hc : e.cSyntax = true) (h : Painted false e.rows) (text : List Text) :
    Painted false (text.foldl appendRow e).rows := by
  induction text generalizing e with
  | nil => exact h
  | cons s text ih =>
    have hn : Painted false (insertRow true (e.rows ++ []) e.rows.length s) ↔ _ :=
      insertRow_painted_iff (by rwa [List.append_nil]) s
    rw [List.append_nil] at hn
    have ha : Painted false (e.appendRow s).rows := by
      rw [appendRow, hc]
      exact hn.2 (.inr trivial)
    exact ih (e := e.appendRow s) hc ha

theorem edits_inSync_iff (screenrows : ℕ) (text : List Text) (steps : List Step) :
    (∀ before, before <+: steps → (before.foldl step (opened screenrows true text)).InSync) ↔
      ∀ before s, before ++ [s] <+: steps → (before.foldl step (opened screenrows true text)).SafeStep s := by
  apply inSync_steps_iff
  · exact cSyntax_foldl_appendRow _ _
  · exact (inSync_iff _).2 (painted_foldl_appendRow rfl (by trivial) _)

theorem edits_stale : ¬ ∀ (screenrows : ℕ) (text : List Text) (steps : List Step),
    ∀ before, before <+: steps → (before.foldl step (opened screenrows true text)).InSync := by
  intro h
  have hs : ([⟨1, 0, .insertNewline⟩].foldl step (opened 1 true [[47, 42, 47], [120]])).InSync :=
    h _ _ _ _ List.prefix_rfl
  revert hs
  rw [InSync]
  decide +kernel

end Editor

end MyOS.User.Edit
