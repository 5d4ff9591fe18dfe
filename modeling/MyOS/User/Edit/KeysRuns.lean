import MyOS.User.Edit.Keys

/-! A run of keys in the editor does to the text what the reference editor does. -/

namespace MyOS.User.Edit.Editor

variable {e : Editor} {above below : List Text} {l r : Text}

lemma on_or_below (hv : e.Valid) : (∃ above l r below, e.On above l r below) ∨ e.Below := by
  by_cases h : e.cy < e.numrows
  · exact .inl (exists_on hv h)
  · exact .inr (below_of_valid hv h)

def Conforms (e : Editor) (k : Key) (e' : Editor) : Prop := e'.Valid ∧ e'.text = e.reference k

lemma typed_conforms (hv : e.Valid) (c : UInt8) (hc) : e.Conforms (.typed c hc) (e.insertChar c) := by
  rcases on_or_below hv with ⟨above, l, r, below, h⟩ | h
  · refine ⟨(h.insertChar c).valid, ?_⟩
    have ho : e.opening = [] := if_neg fun hn => h.lt.ne hn.1
    rw [(h.insertChar c).text, reference_typed, h.before, h.after, ho]
    simp only [List.append_assoc, List.append_nil]
  · refine ⟨(h.insertChar c).valid, ?_⟩
    rw [text, (h.insertChar c).lines, reference_typed, h.before, h.after, opening, List.append_nil, List.append_nil]
    by_cases hn : e.numrows = 0
    · have hl : e.lines = [] := List.eq_nil_of_length_eq_zero (by rwa [length_lines])
      rw [if_neg fun hc => hc.2 hn, text, hl]
      rfl
    · have hl : e.lines ≠ [] := fun hl => hn (by rw [← length_lines, hl]; rfl)
      rw [if_pos ⟨h.cy, hn⟩, intercalate_concat _ _ hl, text]
      simp

lemma enter_conforms_iff (hv : e.Valid) : e.Conforms .enter e.insertNewline ↔ e.numrows ≠ 0 := by
  rcases on_or_below hv with ⟨above, l, r, below, h⟩ | h
  · refine iff_of_true ⟨h.insertNewline.valid, ?_⟩ (Nat.ne_zero_of_lt h.lt)
    rw [h.insertNewline.text, reference_enter, h.before, h.after]
    simp
  · have hi : e.indentation = [] := by simp [indentation, h.cx]
    rw [Conforms, and_iff_right h.insertNewline.valid, reference_enter, h.before, h.after, hi, text, h.lines_insertNewline]
    by_cases hn : e.numrows = 0
    · have hl : e.lines = [] := List.eq_nil_of_length_eq_zero (by rwa [length_lines])
      simp [hn, text, hl]
    · have hl : e.lines ≠ [] := fun hl => hn (by rw [← length_lines, hl]; rfl)
      rw [intercalate_concat _ _ hl, text]
      simp [hn]

lemma backspace_conforms (hv : e.Valid) : e.Conforms .backspace e.deleteChar := by
  rcases on_or_below hv with ⟨above, l, r, below, h⟩ | h
  · rw [Conforms, reference_backspace, if_neg h.lt.ne, h.before, h.after]
    rcases List.eq_nil_or_concat' l with rfl | ⟨l, c, rfl⟩
    · rcases List.eq_nil_or_concat' above with rfl | ⟨above, s, rfl⟩
      · have hd : e.deleteChar = e := by rw [deleteChar, if_pos (.inr ⟨h.cx, h.cy⟩)]
        rw [hd, h.text]
        refine ⟨hv, ?_⟩
        simp
      · refine ⟨h.deleteChar_first.valid, ?_⟩
        rw [h.deleteChar_first.text]
        simp
    · refine ⟨h.deleteChar.valid, ?_⟩
      rw [h.deleteChar.text]
      simp [← List.append_assoc]
  · have hd : e.deleteChar = e := by rw [deleteChar, if_pos (.inl h.cy)]
    rw [hd]
    exact ⟨hv, (if_pos h.cy).symm⟩

lemma del_last (h : e.On above l [] []) :
    e.Conforms .delKey e.deleteChar ↔ l = [] ∧ above = [] := by
  have hb := backspace_conforms h.valid
  rw [Conforms, reference_backspace, if_neg h.lt.ne] at hb
  rw [Conforms, and_iff_right hb.1, hb.2, reference_delKey, h.after, h.before]
  constructor
  · intro he
    have hn := congrArg List.length he
    simp only [List.flatMap_nil, List.append_nil, List.tail_nil, List.length_dropLast] at hn
    have hz : above.flatMap (· ++ [10]) ++ l = [] := by
      apply List.eq_nil_of_length_eq_zero
      omega
    obtain ⟨ha, hl⟩ := List.append_eq_nil_iff.1 hz
    refine ⟨hl, ?_⟩
    cases above with
    | nil => rfl
    | cons s above => simp at ha
  · rintro ⟨rfl, rfl⟩
    rfl

lemma del_conforms_iff (hv : e.Valid) :
    e.Conforms .delKey (e.moveCursor .right).deleteChar ↔ e.CarefulKey .delKey := by
  rcases on_or_below hv with ⟨above, l, r, below, h⟩ | h
  · have hn : e.numrows = above.length + below.length + 1 := by
      rw [← length_lines, h.lines]
      simp [Nat.add_assoc]
    rw [CarefulKey, h.line, h.cy, h.cx, hn]
    cases r with
    | cons c r =>
      have hd := h.right.deleteChar
      refine iff_of_true ⟨hd.valid, ?_⟩ (by simp)
      rw [hd.text, reference_delKey, h.before, h.after]
      simp
    | nil =>
      cases below with
      | cons s below =>
        have hd := h.right_end.deleteChar_first
        refine iff_of_true ⟨hd.valid, ?_⟩ (by simp)
        rw [hd.text, reference_delKey, h.before, h.after]
        simp
      | nil =>
        rw [h.right_last, del_last h]
        simp [List.length_pos_iff]
  · have hd : e.deleteChar = e := by rw [deleteChar, if_pos (.inl h.cy)]
    rw [h.right, hd, Conforms, reference_delKey, h.before, h.after]
    refine iff_of_true ⟨hv, by simp⟩ fun hn => ?_
    have := h.cy
    omega

lemma scroll_eq (e : Editor) : ∃ n, e.scroll = { e with rowoff := n } := by
  rw [scroll]
  split_ifs <;> exact ⟨_, rfl⟩

lemma scrolled_scroll (e : Editor) : 0 < e.screenrows ∧ e.scroll.rowoff ≤ e.cy ∨
    e.screenrows = 0 ∧ e.scroll.rowoff = e.cy + 1 := by
  grind [scroll]

lemma text_of_rows {d : Editor} (h : d.rows = e.rows) : d.text = e.text := by rw [text, text, lines, lines, h]

lemma moves_conforms {d : Editor} {k : Key} (hd : d.Valid) (hr : d.rows = e.rows) (hk : e.reference k = e.text) :
    e.Conforms k d := ⟨hd, by rw [hk, text_of_rows hr]⟩

lemma pageUp_conforms_iff (hv : e.Valid) : e.Conforms .pageUp (e.press .pageUp) ↔ e.CarefulKey .pageUp := by
  obtain ⟨n, hn⟩ := scroll_eq e
  have hs := scrolled_scroll e
  rw [hn] at hs
  rw [press, hn]
  change e.Conforms .pageUp ((moveCursor · .up)^[e.screenrows] { e with cy := n, rowoff := n }) ↔ _
  rcases hs with ⟨hp, hs⟩ | ⟨hp, hs⟩
  · refine iff_of_true (moves_conforms ?_ (rows_iterate_moveCursor _ _ _) rfl) (.inl hp)
    exact valid_iterate_moveCursor (hs.trans hv.1) _ _ hp
  · have hs : n = e.cy + 1 := hs
    rw [CarefulKey, hp, hs]
    exact ⟨fun h => .inr h.1, fun h => moves_conforms (h.resolve_left (lt_irrefl 0)) rfl rfl⟩

lemma pageDown_conforms (hv : e.Valid) : e.Conforms .pageDown (e.press .pageDown) := by
  obtain ⟨n, hn⟩ := scroll_eq e
  have hs := scrolled_scroll e
  rw [hn] at hs
  rw [press, hn]
  refine moves_conforms ?_ (rows_iterate_moveCursor _ _ _) rfl
  rcases hs with ⟨hp, hs⟩ | ⟨hp, hs⟩
  · refine valid_iterate_moveCursor ?_ _ _ hp
    dsimp only
    split
    · exact le_rfl
    · next h => exact not_lt.1 h
  · have hs : n = e.cy + 1 := hs
    have hc : ¬ e.cy > e.numrows := not_lt.2 hv.1
    change Valid ((moveCursor · .down)^[e.screenrows] { e with
      cy := if n + e.screenrows - 1 > e.numrows then e.numrows else n + e.screenrows - 1, rowoff := n })
    rw [hp, hs, Nat.add_zero, Nat.add_sub_cancel, if_neg hc]
    exact hv

lemma press_conforms_iff (hv : e.Valid) (k : Key) : e.Conforms k (e.press k) ↔ e.CarefulKey k := by
  obtain ⟨n, hn⟩ := scroll_eq e
  cases k with
  | typed c hc =>
    rw [press, hn]
    exact iff_of_true (typed_conforms (e := { e with rowoff := n }) hv c hc) trivial
  | enter =>
    rw [press, hn]
    exact enter_conforms_iff (e := { e with rowoff := n }) hv
  | backspace =>
    rw [press, hn]
    exact iff_of_true (backspace_conforms (e := { e with rowoff := n }) hv) trivial
  | delKey =>
    rw [press, hn]
    exact del_conforms_iff (e := { e with rowoff := n }) hv
  | arrow a =>
    rw [press, hn]
    refine iff_of_true (moves_conforms ?_ (rows_moveCursor _ _) rfl) trivial
    exact valid_moveCursor (e := { e with rowoff := n }) hv.1 a
  | homeKey =>
    rw [press, hn]
    exact iff_of_true (moves_conforms ⟨hv.1, Nat.zero_le _⟩ rfl rfl) trivial
  | endKey =>
    rw [press, hn, processKey]
    refine iff_of_true ?_ trivial
    split
    · exact moves_conforms ⟨hv.1, le_rfl⟩ rfl rfl
    · exact moves_conforms hv rfl rfl
  | pageUp => exact pageUp_conforms_iff hv
  | pageDown => exact iff_of_true (pageDown_conforms hv) trivial

lemma presses_conform_iff (hv : e.Valid) (keys : List Key) :
    (∀ before k, before ++ [k] <+: keys → (before.foldl press e).Conforms k ((before ++ [k]).foldl press e)) ↔
      ∀ before k, before ++ [k] <+: keys → (before.foldl press e).CarefulKey k := by
  have hs : ∀ before k, (before ++ [k]).foldl press e = (before.foldl press e).press k := by
    intro before k
    rw [List.foldl_append]
    rfl
  constructor
  · intro h before k hb
    have hb' : (before.foldl press e).Valid := by
      cases before using List.reverseRecOn with
      | nil => exact hv
      | append_singleton before j => exact (h before j ((List.prefix_append _ _).trans hb)).1
    rw [← press_conforms_iff hb', ← hs]
    exact h before k hb
  · intro h
    have hva : ∀ before, before <+: keys → (before.foldl press e).Valid := by
      intro before hb
      induction before using List.reverseRecOn with
      | nil => exact hv
      | append_singleton before k ih =>
        rw [hs]
        exact ((press_conforms_iff (ih ((List.prefix_append _ _).trans hb)) k).2 (h before k hb)).1
    intro before k hb
    rw [hs]
    exact (press_conforms_iff (hva before ((List.prefix_append _ _).trans hb)) k).2 (h before k hb)

lemma opened_cursor (screenrows : ℕ) (cSyntax : Bool) (text : List Text) : (opened screenrows cSyntax text).Valid := by
  have hc : ∀ e : Editor, e.cx = 0 → e.cy = 0 → (text.foldl appendRow e).Valid := by
    induction text with
    | nil => exact fun e hx hy => ⟨hy ▸ Nat.zero_le _, hx ▸ Nat.zero_le _⟩
    | cons s text ih => exact fun e hx hy => ih (e.appendRow s) hx hy
  exact hc _ rfl rfl

theorem keys_conform_iff (screenrows : ℕ) (cSyntax : Bool) (text : List Text) (keys : List Key) :
    let e := opened screenrows cSyntax text
    (∀ before k, before ++ [k] <+: keys → (before.foldl press e).Conforms k ((before ++ [k]).foldl press e)) ↔
      ∀ before k, before ++ [k] <+: keys → (before.foldl press e).CarefulKey k :=
  presses_conform_iff (opened_cursor screenrows cSyntax text) keys

theorem keys_delete_last : ¬ ∀ (screenrows : ℕ) (cSyntax : Bool) (text : List Text) (keys : List Key),
    let e := opened screenrows cSyntax text
    ∀ before k, before ++ [k] <+: keys → (before.foldl press e).Conforms k ((before ++ [k]).foldl press e) := by
  intro h
  have hd := (h 24 false [[120]] [.endKey, .delKey] [.endKey] .delKey List.prefix_rfl).2
  revert hd
  decide +kernel

end MyOS.User.Edit.Editor
