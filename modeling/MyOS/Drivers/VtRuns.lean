import MyOS.Drivers.Vt

/-! No byte takes the terminal outside of its screen, but for three commands. -/

namespace MyOS.Drivers

open Library

namespace Screen

variable {scr : Screen} {x y t b : ℕ}

lemma cells_le : scr.cols * scr.rows ≤ 2 ^ 20 := by
  have h := scr.size_le
  omega

lemma row_le (hy : y ≤ scr.rows) : y * scr.cols ≤ scr.cols * scr.rows := by
  rw [mul_comm scr.cols]
  exact Nat.mul_le_mul_right _ hy

lemma cell_lt (hx : x < scr.cols) (hy : y < scr.rows) :
    y * scr.cols + x < scr.cols * scr.rows := by
  have h := scr.row_le hy
  rw [Nat.succ_mul] at h
  omega

lemma cols_le : scr.cols ≤ 2 ^ 20 :=
  (Nat.le_mul_of_pos_right _ (by have := scr.rows_two; omega)).trans cells_le

lemma rows_le : scr.rows ≤ 2 ^ 20 :=
  (Nat.le_mul_of_pos_left _ scr.cols_pos).trans cells_le

lemma mul32_row (hy : y ≤ scr.rows) : mul32 y scr.cols = y * scr.cols := by
  have h1 := scr.row_le hy
  have h2 := scr.cells_le
  exact mul32_of_lt (by omega)

lemma mul32_cells : mul32 scr.cols scr.rows = scr.cols * scr.rows := by
  have h := scr.cells_le
  exact mul32_of_lt (by omega)

lemma add32_cell (hx : x ≤ scr.cols) (hy : y < scr.rows) :
    add32 (mul32 y scr.cols) x = y * scr.cols + x := by
  have h1 := scr.row_le hy
  have h2 := scr.cells_le
  rw [Nat.succ_mul] at h1
  rw [mul32_row hy.le]
  exact add32_of_lt (by omega)

@[simp]
lemma sub32_cols : sub32 scr.cols 1 = scr.cols - 1 := by
  have h := scr.cols_le
  exact sub32_of_le scr.cols_pos (by omega)

@[simp]
lemma sub32_rows : sub32 scr.rows 1 = scr.rows - 1 := by
  have h := scr.rows_le
  have h2 := scr.rows_two
  exact sub32_of_le (by omega) (by omega)

end Screen

structure VtRegs.Inv (scr : Screen) (r : VtRegs) : Prop where
  cx_lt : r.cx < scr.cols
  cy_lt : r.cy < scr.rows
  top_lt : r.top < r.bottom
  bottom_lt : r.bottom < scr.rows
  nparams_le : r.nparams ≤ maxParams
  wrap : r.wrapPending → r.cx = scr.cols - 1

namespace Vt

def Kept (s t : Vt) : Prop := t.toVtRegs = s.toVtRegs

section Drawing

variable {scr : Screen} {s : Vt} {x y i : ℕ} {c : VtCell}

lemma Kept.trans {t u : Vt} (h : s.Kept t) (h' : t.Kept u) : s.Kept u :=
  Eq.trans h' h

lemma store_returns (h : i < scr.cols * scr.rows) : Returns (s.store scr i c) s.Kept := by
  rw [store, if_pos h]
  exact .ok rfl

lemma paint_returns (hx : x < scr.cols) (hy : y < scr.rows) :
    Returns (s.paint scr x y c) s.Kept := by
  rw [paint, if_pos ⟨hx, hy⟩]
  exact .ok rfl

lemma memmove_returns {dst src n : ℕ} (hd : dst + n ≤ scr.cols * scr.rows)
    (hs : src + n ≤ scr.cols * scr.rows) : Returns (s.memmove scr dst src n) s.Kept := by
  rw [memmove, if_pos ⟨hd, hs⟩]
  exact .ok rfl

lemma read_ok (hx : x < scr.cols) (hy : y < scr.rows) :
    s.read scr (add32 (mul32 y scr.cols) x) = .ok (s.cells (y * scr.cols + x)) := by
  rw [scr.add32_cell hx.le hy, read, if_pos (scr.cell_lt hx hy)]

lemma draw_returns (hx : x < scr.cols) (hy : y < scr.rows) : Returns (s.draw scr x y) s.Kept := by
  rw [draw, read_ok hx hy]
  exact paint_returns hx hy

lemma kept_forLt {a b : ℕ} {g : ℕ → Vt → Except Fault Vt}
    (h : ∀ i, a ≤ i → i < b → ∀ t, Returns (g i t) t.Kept) : Returns (forLt a b g s) s.Kept :=
  returns_forLt (fun i hi hib t ht => (h i hi hib t).mono fun _ hu => ht.trans hu) rfl

lemma kept_forLe {a b : ℕ} {g : ℕ → Vt → Except Fault Vt} (hb : b < 2 ^ 32 - 1)
    (h : ∀ i, a ≤ i → i ≤ b → ∀ t, Returns (g i t) t.Kept) : Returns (forLe a b g s) s.Kept :=
  returns_forLe hb (fun i hi hib t ht => (h i hi hib t).mono fun _ hu => ht.trans hu) rfl

lemma drawRow_returns (hy : y < scr.rows) :
    Returns (forLt 0 scr.cols (fun x s => s.draw scr x y) s) s.Kept :=
  kept_forLt fun _ _ hx _ => draw_returns hx hy

lemma redraw_returns : Returns (s.redraw scr) s.Kept :=
  kept_forLt fun _ _ hy _ => drawRow_returns hy

lemma clearCells_returns {first last : ℕ} (h : last ≤ scr.cols * scr.rows) :
    Returns (s.clearCells scr first last) s.Kept := by
  refine kept_forLt fun i _ hi t => ?_
  refine (store_returns (hi.trans_le h)).bind fun u hu => ?_
  refine (paint_returns ?_ ?_).mono fun _ hv => Kept.trans hu hv
  · exact Nat.mod_lt _ scr.cols_pos
  · exact Nat.div_lt_of_lt_mul (hi.trans_le h)

lemma hideCursor_returns (hx : s.cx < scr.cols) (hy : s.cy < scr.rows) :
    Returns (s.hideCursor scr) s.Kept := by
  unfold hideCursor
  rw [if_pos hx]
  exact .ite (fun _ => draw_returns hx hy) fun _ => .ok rfl

lemma showCursor_returns (hx : s.cx < scr.cols) (hy : s.cy < scr.rows) :
    Returns (s.showCursor scr) s.Kept := by
  unfold showCursor
  dsimp only
  rw [if_pos hx]
  refine .ite (fun _ => .ok rfl) fun _ => .ite (fun _ => ?_) fun _ => .ok rfl
  rw [read_ok hx hy]
  exact paint_returns hx hy

end Drawing

section Scrolling

variable {scr : Screen} {s : Vt} {t b n k : ℕ}

lemma height_eq (ht : t ≤ b) (hb : b < scr.rows) : add32 (sub32 b t) 1 = b - t + 1 := by
  have h := scr.rows_le
  rw [sub32_of_le ht (by omega)]
  exact add32_of_lt (by omega)

lemma rest_eq (hk : t + k ≤ b + 1) (hb : b < scr.rows) :
    sub32 (sub32 (add32 b 1) t) k = b + 1 - t - k := by
  have h := scr.rows_le
  rw [add32_of_lt (by omega), sub32_of_le (b := t) (by omega) (by omega)]
  exact sub32_of_le (by omega) (by omega)

lemma moveRows_returns {u v : ℕ} (hu : u + (b + 1 - t - k) ≤ scr.rows)
    (hv : v + (b + 1 - t - k) ≤ scr.rows) :
    Returns (s.memmove scr (u * scr.cols) (v * scr.cols) ((b + 1 - t - k) * scr.cols)) s.Kept := by
  apply memmove_returns
  · rw [← Nat.add_mul]
    exact scr.row_le hu
  · rw [← Nat.add_mul]
    exact scr.row_le hv

lemma scrollUp_returns (ht : t ≤ b) (hb : b < scr.rows) (hn : 1 ≤ n) (h : t = 0 → n ≤ b) :
    Returns (s.scrollUp scr t b n) s.Kept := by
  have hrows := scr.rows_le
  unfold scrollUp
  rw [height_eq ht hb]
  generalize hk : (if n > b - t + 1 then b - t + 1 else n) = k
  have hk1 : 1 ≤ k ∧ t + k ≤ b + 1 ∧ k ≤ b := by
    split_ifs at hk <;> omega
  obtain ⟨hk1, hkt, hkb⟩ := hk1
  dsimp only
  rw [rest_eq hkt hb, scr.mul32_row (by omega), add32_of_lt (by omega), scr.mul32_row (by omega),
    sub32_of_le hkb (by omega), add32_of_lt (by omega), sub32_of_le (by omega) (by omega),
    scr.mul32_row (by omega), scr.mul32_row (by omega)]
  refine (moveRows_returns (by omega) (by omega)).bind fun u hu => ?_
  refine (kept_forLe (by omega) fun y _ hy _ => drawRow_returns (by omega)).bind fun v hv => ?_
  exact (clearCells_returns (scr.row_le hb)).mono fun _ hw => (hu.trans hv).trans hw

lemma scrollDown_returns (ht : t ≤ b) (hb : b < scr.rows) :
    Returns (s.scrollDown scr t b n) s.Kept := by
  have hrows := scr.rows_le
  unfold scrollDown
  rw [height_eq ht hb]
  generalize hk : (if n > b - t + 1 then b - t + 1 else n) = k
  have hkt : t + k ≤ b + 1 := by
    split_ifs at hk <;> omega
  dsimp only
  rw [rest_eq hkt hb, add32_of_lt (by omega), scr.mul32_row (by omega), scr.mul32_row (by omega)]
  refine (moveRows_returns (by omega) (by omega)).bind fun u hu => ?_
  refine (kept_forLe (by omega) fun y _ hy _ => drawRow_returns (by omega)).bind fun v hv => ?_
  exact (clearCells_returns (scr.row_le (by omega))).mono fun _ hw => (hu.trans hv).trans hw

end Scrolling

section Cursor

variable {scr : Screen} {s t : Vt} {x y n : ℕ}

lemma Kept.inv (h : s.Kept t) (hs : s.toVtRegs.Inv scr) : t.toVtRegs.Inv scr :=
  h ▸ hs

lemma setCursor_inv (h : s.toVtRegs.Inv scr) : (s.setCursor scr x y).toVtRegs.Inv scr := by
  have hc := scr.cols_pos
  have hr := scr.rows_two
  refine ⟨?_, ?_, h.top_lt, h.bottom_lt, h.nparams_le, fun hw => absurd hw (by simp [setCursor])⟩
  · simp only [setCursor, Screen.sub32_cols]
    omega
  · simp only [setCursor, Screen.sub32_rows]
    omega

lemma linefeed_returns (hcy : s.cy < scr.rows) (ht : s.top < s.bottom)
    (hb : s.bottom < scr.rows) :
    Returns (s.linefeed scr) fun t =>
      ∃ y < scr.rows, t.toVtRegs = { s.toVtRegs with cy := y } := by
  unfold linefeed
  have hrows := scr.rows_le
  refine .ite (fun _ => ?_) fun _ => .ite (fun hlt => ?_) fun _ => .ok ⟨s.cy, hcy, rfl⟩
  · exact (scrollUp_returns ht.le hb le_rfl (by omega)).mono fun t h => ⟨s.cy, hcy, h⟩
  · rw [scr.sub32_rows] at hlt
    have hy : add32 s.cy 1 = s.cy + 1 := add32_of_lt (by omega)
    exact .ok ⟨add32 s.cy 1, by omega, rfl⟩

lemma linefeed_inv (h : s.toVtRegs.Inv scr) :
    Returns (s.linefeed scr) fun t => t.toVtRegs.Inv scr ∧ t.wrapPending = s.wrapPending := by
  refine (linefeed_returns h.cy_lt h.top_lt h.bottom_lt).mono fun t ⟨y, hy, ht⟩ => ?_
  rw [ht]
  exact ⟨⟨h.cx_lt, hy, h.top_lt, h.bottom_lt, h.nparams_le, h.wrap⟩, rfl⟩

lemma home_inv (h : s.toVtRegs.Inv scr) (hw : s.wrapPending → scr.cols = 1) :
    ({ s with cx := 0 } : Vt).toVtRegs.Inv scr :=
  ⟨scr.cols_pos, h.cy_lt, h.top_lt, h.bottom_lt, h.nparams_le, fun hp => by
    change 0 = scr.cols - 1
    rw [hw hp]⟩

lemma unwrap_inv (h : s.toVtRegs.Inv scr) (hx : x < scr.cols) :
    ({ s with cx := x, wrapPending := false } : Vt).toVtRegs.Inv scr :=
  ⟨hx, h.cy_lt, h.top_lt, h.bottom_lt, h.nparams_le, fun hp => absurd hp (by simp)⟩

lemma wrap_returns (h : s.toVtRegs.Inv scr) :
    Returns (s.wrap scr) fun t => t.toVtRegs.Inv scr ∧ t.wrapPending = false := by
  refine .ite (fun _ => ?_) fun hw => .ok ⟨h, by simpa using hw⟩
  exact linefeed_inv (unwrap_inv h scr.cols_pos)

lemma putChar_returns {cp : UInt32} (h : s.toVtRegs.Inv scr) :
    Returns (s.putChar scr cp) fun t => t.toVtRegs.Inv scr := by
  unfold putChar
  refine (wrap_returns h).bind fun t ⟨ht, hw⟩ => ?_
  dsimp only
  rw [scr.add32_cell ht.cx_lt.le ht.cy_lt]
  refine (store_returns (scr.cell_lt ht.cx_lt ht.cy_lt)).bind fun u hu => ?_
  have hu' : u.toVtRegs.Inv scr := hu.inv ht
  refine (paint_returns hu'.cx_lt hu'.cy_lt).bind fun v hv => ?_
  have hv' : v.toVtRegs.Inv scr := hv.inv hu'
  have hcols := scr.cols_le
  rw [scr.sub32_cols]
  refine .ite (fun hx => ?_) fun hx => ?_
  · exact .ok ⟨hv'.cx_lt, hv'.cy_lt, hv'.top_lt, hv'.bottom_lt, hv'.nparams_le, fun _ => hx⟩
  · have hlt := hv'.cx_lt
    have hvw : v.wrapPending = false := by
      rw [hv, hu]
      exact hw
    refine .ok ⟨?_, hv'.cy_lt, hv'.top_lt, hv'.bottom_lt, hv'.nparams_le, fun hp => ?_⟩
    · change add32 v.cx 1 < scr.cols
      rw [add32_of_lt (by omega)]
      omega
    · exact absurd (hvw.symm.trans hp) (by simp)

end Cursor

section Commands

variable {scr : Screen} {s : Vt} {i n mode : ℕ}

lemma param_pos {d : ℕ} (hd : 1 ≤ d) : 1 ≤ s.param i d := by
  unfold param
  split_ifs <;> omega

lemma colors_inv {f b : UInt8} {bold reverse : Bool} (h : s.toVtRegs.Inv scr) :
    VtRegs.Inv scr { s.toVtRegs with fg := f, bg := b, bold := bold, reverse := reverse } :=
  ⟨h.cx_lt, h.cy_lt, h.top_lt, h.bottom_lt, h.nparams_le, h.wrap⟩

lemma readParam_ok (h : s.toVtRegs.Inv scr) (hi : i < s.nparams) :
    s.readParam i = .ok (s.params i) :=
  if_pos (hi.trans_le h.nparams_le)

lemma sgrColor_ok (h : s.toVtRegs.Inv scr) (hi : i + 1 < s.nparams) :
    ∃ p, s.sgrColor i = .ok p := by
  unfold sgrColor
  rw [readParam_ok h hi, ok_bind]
  split_ifs with h5 h2
  · rw [readParam_ok h h5.2]
    exact ⟨_, rfl⟩
  · have h4 := h2.2
    rw [readParam_ok h (by omega), readParam_ok h (by omega), readParam_ok h h4]
    exact ⟨_, rfl⟩
  · exact ⟨_, rfl⟩

lemma sgrLoop_returns {fuel : ℕ} (h : s.toVtRegs.Inv scr) :
    Returns (sgrLoop fuel i s) fun t => t.toVtRegs.Inv scr := by
  induction fuel generalizing i s with
  | zero => exact .ok h
  | succ fuel ih =>
    unfold sgrLoop
    refine .ite (fun hi => ?_) fun _ => .ok h
    rw [readParam_ok h hi, ok_bind]
    iterate 11 refine .ite (fun _ => ih (colors_inv h)) fun _ => ?_
    refine .ite (fun hcol => ?_) fun _ => ih h
    obtain ⟨p, hp⟩ := sgrColor_ok h hcol.2
    rw [hp]
    exact .ite (fun _ => ih (colors_inv h)) fun _ => ih (colors_inv h)

lemma sgr_returns (h : s.toVtRegs.Inv scr) : Returns s.sgr fun t => t.toVtRegs.Inv scr := by
  refine sgrLoop_returns ?_
  split_ifs
  · exact ⟨h.cx_lt, h.cy_lt, h.top_lt, h.bottom_lt, by change 1 ≤ 16; norm_num, h.wrap⟩
  · exact h

lemma clearAll_returns : Returns (s.clearCells scr 0 (mul32 scr.cols scr.rows)) s.Kept :=
  clearCells_returns scr.mul32_cells.le

lemma setAltScreen_returns {on : Bool} (h : s.toVtRegs.Inv scr) :
    Returns (s.setAltScreen scr on) fun t =>
      t.toVtRegs.Inv scr ∧ t.nparams = s.nparams := by
  unfold setAltScreen
  refine .ite (fun _ => .ok ⟨h, rfl⟩) fun _ => .ite (fun _ => ?_) fun _ => ?_
  · refine clearAll_returns.bind fun t ht => .ok ?_
    rw [Kept] at ht
    rw [ht]
    exact ⟨⟨h.cx_lt, h.cy_lt, h.top_lt, h.bottom_lt, h.nparams_le, h.wrap⟩, rfl⟩
  · refine redraw_returns.bind fun t ht => .ok ?_
    have hc : VtRegs.Inv scr (setCursor scr { s with cells := s.altCells } s.mainX s.mainY).toVtRegs :=
      setCursor_inv h
    have hi : t.toVtRegs.Inv scr := ht.inv hc
    have hn : t.nparams = s.nparams := by
      rw [Kept] at ht
      rw [ht]
      rfl
    exact ⟨⟨hi.cx_lt, hi.cy_lt, hi.top_lt, hi.bottom_lt, hi.nparams_le, hi.wrap⟩, hn⟩

lemma decModes_returns {on : Bool} (h : s.toVtRegs.Inv scr) :
    Returns (s.decModes scr on) fun t => t.toVtRegs.Inv scr := by
  have hloop : Returns (s.decModes scr on) fun t =>
      t.toVtRegs.Inv scr ∧ t.nparams = s.nparams := by
    refine returns_forLt (fun i _ hi t ⟨ht, hn⟩ => ?_) ⟨h, rfl⟩
    rw [readParam_ok ht (hi.trans_eq hn.symm), ok_bind]
    refine .ite (fun _ => .ok ⟨?_, hn⟩) fun _ => .ite (fun _ => ?_) fun _ => .ok ⟨ht, hn⟩
    · exact ⟨ht.cx_lt, ht.cy_lt, ht.top_lt, ht.bottom_lt, ht.nparams_le, ht.wrap⟩
    · exact (setAltScreen_returns ht).mono fun u hu => ⟨hu.1, hu.2.trans hn⟩
  exact hloop.mono fun _ ht => ht.1

lemma eraseDisplay_returns (h : s.toVtRegs.Inv scr) : Returns (s.eraseDisplay scr mode) s.Kept := by
  have hcell := scr.cell_lt h.cx_lt h.cy_lt
  have hle := scr.cells_le
  unfold eraseDisplay
  dsimp only
  rw [scr.add32_cell h.cx_lt.le h.cy_lt, add32_of_lt (by omega)]
  exact .ite (fun _ => clearCells_returns scr.mul32_cells.le) fun _ =>
    .ite (fun _ => clearCells_returns hcell) fun _ => clearAll_returns

lemma line_le (h : s.toVtRegs.Inv scr) :
    s.cy * scr.cols + scr.cols ≤ scr.cols * scr.rows := by
  rw [← Nat.succ_mul]
  exact scr.row_le h.cy_lt

lemma eraseLine_returns (h : s.toVtRegs.Inv scr) : Returns (s.eraseLine scr mode) s.Kept := by
  have hline := line_le h
  have hle := scr.cells_le
  have hx := h.cx_lt
  unfold eraseLine
  dsimp only
  rw [scr.sub32_cols, min_eq_left (by omega), scr.add32_cell hx.le h.cy_lt,
    scr.add32_cell le_rfl h.cy_lt, add32_of_lt (by omega)]
  exact .ite (fun _ => clearCells_returns hline) fun _ =>
    .ite (fun _ => clearCells_returns (by omega)) fun _ => clearCells_returns hline

lemma insertChars_returns (h : s.toVtRegs.Inv scr) : Returns (s.insertChars scr n) s.Kept := by
  have hline := line_le h
  have hle := scr.cells_le
  have hcols := scr.cols_le
  have hx := h.cx_lt
  unfold insertChars
  rw [sub32_of_le hx.le (by omega)]
  generalize hk : min n (scr.cols - s.cx) = k
  have hkx : k ≤ scr.cols - s.cx := hk ▸ min_le_right _ _
  dsimp only
  rw [scr.add32_cell hx.le h.cy_lt, add32_of_lt (by omega), sub32_of_le hkx (by omega)]
  refine (memmove_returns (by omega) (by omega)).bind fun t ht => ?_
  have hti : t.toVtRegs.Inv scr := ht.inv h
  refine (kept_forLt fun x _ hxc u => ?_).bind fun u hu => ?_
  · exact draw_returns hxc hti.cy_lt
  have hui : u.toVtRegs.Inv scr := hu.inv hti
  have hcx : u.cx = s.cx := congrArg VtRegs.cx (ht.trans hu)
  rw [hcx, scr.add32_cell hx.le h.cy_lt, add32_of_lt (by omega)]
  exact (clearCells_returns (by omega)).mono fun _ hv => (ht.trans hu).trans hv

lemma deleteChars_returns (h : s.toVtRegs.Inv scr) : Returns (s.deleteChars scr n) s.Kept := by
  have hline := line_le h
  have hle := scr.cells_le
  have hcols := scr.cols_le
  have hx := h.cx_lt
  unfold deleteChars
  rw [sub32_of_le hx.le (by omega)]
  generalize hk : min n (scr.cols - s.cx) = k
  have hkx : k ≤ scr.cols - s.cx := hk ▸ min_le_right _ _
  dsimp only
  rw [scr.add32_cell hx.le h.cy_lt, add32_of_lt (by omega), sub32_of_le hkx (by omega)]
  refine (memmove_returns (by omega) (by omega)).bind fun t ht => ?_
  have hti : t.toVtRegs.Inv scr := ht.inv h
  refine (kept_forLt fun x _ hxc u => ?_).bind fun u hu => ?_
  · rw [sub32_of_le (by omega) (by omega)] at hxc
    exact draw_returns (by omega) hti.cy_lt
  rw [scr.add32_cell le_rfl h.cy_lt]
  exact (clearCells_returns hline).mono fun _ hv => (ht.trans hu).trans hv

lemma setRegion_inv (h : s.toVtRegs.Inv scr) : (s.setRegion scr).toVtRegs.Inv scr := by
  rw [setRegion]
  generalize sub32 (s.param 0 1) 1 = t
  generalize sub32 (s.param 1 scr.rows) 1 = b
  split_ifs with htb
  · have hr : VtRegs.Inv scr { s.toVtRegs with top := t, bottom := b } :=
      ⟨h.cx_lt, h.cy_lt, htb.1, htb.2, h.nparams_le, h.wrap⟩
    exact setCursor_inv hr
  · exact h

def ScrollsAway (s : Vt) (f : Char) : Prop :=
  s.priv ≠ '?'.toUInt8 ∧ s.top = 0 ∧ s.bottom < s.param 0 1 ∧ (f = 'S' ∨ f = 'M' ∧ s.cy = 0)

instance (s : Vt) (f : Char) : Decidable (s.ScrollsAway f) := inferInstanceAs (Decidable (_ ∧ _ ∧ _ ∧ (_ ∨ _ ∧ _)))

lemma csiDispatch_returns {f : Char} (h : s.toVtRegs.Inv scr) (hf : ¬ s.ScrollsAway f) :
    Returns (s.csiDispatch scr f) fun t => t.toVtRegs.Inv scr := by
  have hn : 1 ≤ s.param 0 1 := param_pos le_rfl
  have hline := line_le h
  have hle := scr.cells_le
  unfold csiDispatch
  dsimp only
  generalize hn' : s.param 0 1 = n at hn
  refine .ite (fun _ => .ite (fun _ => decModes_returns h) fun _ => .ok h) fun hpriv => ?_
  have keep : ∀ {x : Except Fault Vt}, Returns x s.Kept →
      Returns x fun t => t.toVtRegs.Inv scr := fun hx => hx.mono fun _ ht => ht.inv h
  split
  case h_1 | h_2 | h_3 | h_4 | h_5 | h_6 | h_7 | h_8 | h_9 | h_10 => exact .ok (setCursor_inv h)
  case h_11 => exact keep (eraseDisplay_returns h)
  case h_12 => exact keep (eraseLine_returns h)
  case h_13 =>
    exact .ite (fun hc => keep (scrollDown_returns hc.2 h.bottom_lt)) fun _ => .ok h
  case h_14 =>
    refine .ite (fun hc => keep (scrollUp_returns hc.2 h.bottom_lt hn fun h0 => ?_)) fun _ => .ok h
    by_contra hlt
    exact hf ⟨hpriv, by omega, by omega, .inr ⟨rfl, h0⟩⟩
  case h_15 =>
    refine keep (scrollUp_returns h.top_lt.le h.bottom_lt hn fun h0 => ?_)
    by_contra hlt
    exact hf ⟨hpriv, h0, by omega, .inl rfl⟩
  case h_16 => exact keep (scrollDown_returns h.top_lt.le h.bottom_lt)
  case h_17 => exact keep (insertChars_returns h)
  case h_18 => exact keep (deleteChars_returns h)
  case h_19 =>
    refine keep (clearCells_returns ?_)
    rw [scr.add32_cell (min_le_right _ _) h.cy_lt]
    omega
  case h_20 => exact sgr_returns h
  case h_21 => exact .ok (setRegion_inv h)
  case h_22 => exact .ok ⟨h.cx_lt, h.cy_lt, h.top_lt, h.bottom_lt, h.nparams_le, h.wrap⟩
  case h_23 => exact .ok (setCursor_inv h)
  case h_24 =>
    exact .ite (fun _ => .ok ⟨h.cx_lt, h.cy_lt, h.top_lt, h.bottom_lt, h.nparams_le, h.wrap⟩)
      fun _ => .ok h
  case h_25 => exact .ok h

end Commands

section Input

variable {scr : Screen} {s : Vt} {c : UInt8}

lemma control_returns (h : s.toVtRegs.Inv scr) :
    Returns (s.control scr c) fun t => t.toVtRegs.Inv scr := by
  have hx := h.cx_lt
  have hcols := scr.cols_le
  refine .ite (fun _ => ?_) fun _ => .ite (fun _ => .ok (unwrap_inv h scr.cols_pos)) fun _ =>
    .ite (fun _ => .ok (unwrap_inv h (by omega))) fun _ => .ite (fun _ => .ok ?_) fun _ =>
    .ite (fun _ => .ok ?_) fun _ => .ok h
  · exact (linefeed_inv (unwrap_inv h scr.cols_pos)).mono fun _ ht => ht.1
  · -- a tab from the last column stays there
    rw [scr.sub32_cols, add32_of_lt (by omega)]
    refine ⟨?_, h.cy_lt, h.top_lt, h.bottom_lt, h.nparams_le, fun hw => ?_⟩
    · change min _ _ < scr.cols
      omega
    · have hcx := h.wrap hw
      change min _ _ = scr.cols - 1
      omega
  · exact ⟨h.cx_lt, h.cy_lt, h.top_lt, h.bottom_lt, h.nparams_le, h.wrap⟩

lemma utf_inv {cp : UInt32} {n : ℕ} (h : s.toVtRegs.Inv scr) :
    VtRegs.Inv scr { s.toVtRegs with utfCp := cp, utfNeed := n } :=
  ⟨h.cx_lt, h.cy_lt, h.top_lt, h.bottom_lt, h.nparams_le, h.wrap⟩

lemma putcPlain_returns (h : s.toVtRegs.Inv scr) :
    Returns (s.putcPlain scr c) fun t => t.toVtRegs.Inv scr :=
  .ite (fun _ => control_returns h) fun _ => .ite (fun _ => putChar_returns h) fun _ =>
    .ite (fun _ => .ok (utf_inv h)) fun _ => .ite (fun _ => .ok (utf_inv h)) fun _ =>
    .ite (fun _ => .ok (utf_inv h)) fun _ => putChar_returns h

lemma putcNormal_returns (h : s.toVtRegs.Inv scr) :
    Returns (s.putcNormal scr c) fun t => t.toVtRegs.Inv scr := by
  refine .ite (fun _ => .ite (fun _ => ?_) fun _ => ?_) fun _ => putcPlain_returns h
  · exact .ite (fun _ => putChar_returns (utf_inv h)) fun _ => .ok (utf_inv h)
  · have hs : VtRegs.Inv scr { s.toVtRegs with utfNeed := 0 } := utf_inv h
    exact (putChar_returns (s := { s with utfNeed := 0 }) hs).bind fun _ ht => putcPlain_returns ht

lemma st_inv {st : VtState} (h : s.toVtRegs.Inv scr) : VtRegs.Inv scr { s.toVtRegs with st := st } :=
  ⟨h.cx_lt, h.cy_lt, h.top_lt, h.bottom_lt, h.nparams_le, h.wrap⟩

/-- `ESC E` to the start of a line when a character of the last column waits for the next one. -/
def Unwraps (scr : Screen) (s : Vt) (c : UInt8) : Prop :=
  c = 'E'.toUInt8 ∧ s.wrapPending ∧ scr.cols ≠ 1

instance (scr : Screen) (s : Vt) (c : UInt8) : Decidable (Unwraps scr s c) := inferInstanceAs (Decidable (_ ∧ _ ∧ _))

lemma putcEsc_returns (h : s.toVtRegs.Inv scr) (hc : ¬ Unwraps scr s c) :
    Returns (s.putcEsc scr c) fun t => t.toVtRegs.Inv scr := by
  have hs : VtRegs.Inv scr { s.toVtRegs with st := .normal } := st_inv h
  refine .ite (fun _ => .ok ?_) fun _ => .ite (fun _ => .ok (st_inv hs)) fun _ =>
    .ite (fun _ => .ok ?_) fun _ => .ite (fun _ => .ok (setCursor_inv hs)) fun _ =>
    .ite (fun _ => ?_) fun _ => .ite (fun _ => ?_) fun _ => .ite (fun hE => ?_) fun _ =>
    .ite (fun _ => ?_) fun _ => .ok hs
  · exact ⟨h.cx_lt, h.cy_lt, h.top_lt, h.bottom_lt, Nat.zero_le _, h.wrap⟩
  · exact ⟨h.cx_lt, h.cy_lt, h.top_lt, h.bottom_lt, h.nparams_le, h.wrap⟩
  · refine .ite (fun _ => ?_) fun _ => .ite (fun _ => .ok ?_) fun _ => .ok hs
    · exact (scrollDown_returns h.top_lt.le h.bottom_lt).mono fun _ ht => ht.inv hs
    · have hcy := h.cy_lt
      exact ⟨h.cx_lt, by change s.cy - 1 < scr.rows; omega, h.top_lt, h.bottom_lt, h.nparams_le,
        h.wrap⟩
  · exact (linefeed_inv hs).mono fun _ ht => ht.1
  · refine (linefeed_inv (s := { s with st := .normal, cx := 0 }) ?_).mono fun _ ht => ht.1
    refine home_inv (s := { s with st := .normal }) hs fun hw => ?_
    by_contra hcols
    exact hc ⟨hE, hw, hcols⟩
  · refine clearAll_returns.bind fun t ht => .ok ?_
    refine setCursor_inv (ht.inv ?_)
    have hrows := scr.rows_two
    refine ⟨h.cx_lt, h.cy_lt, ?_, ?_, h.nparams_le, h.wrap⟩
    · change 0 < sub32 scr.rows 1
      rw [scr.sub32_rows]
      omega
    · change sub32 scr.rows 1 < scr.rows
      rw [scr.sub32_rows]
      omega

lemma putcCsi_returns (h : s.toVtRegs.Inv scr) (hc : ¬ s.ScrollsAway (Char.ofUInt8 c)) :
    Returns (s.putcCsi scr c) fun t => t.toVtRegs.Inv scr := by
  have hone : VtRegs.Inv scr (if s.nparams = 0 then { s with nparams := 1 } else s).toVtRegs := by
    split_ifs
    · exact ⟨h.cx_lt, h.cy_lt, h.top_lt, h.bottom_lt, by change 1 ≤ 16; norm_num, h.wrap⟩
    · exact h
  unfold putcCsi
  dsimp only
  generalize hs : (if s.nparams = 0 then { s with nparams := 1 } else s) = u at hone
  have hu : 1 ≤ u.nparams := by
    rw [← hs]
    split_ifs with h0
    · exact le_rfl
    · exact Nat.one_le_iff_ne_zero.2 h0
  have hle := hone.nparams_le
  refine .ite (fun _ => ?_) fun _ => .ite (fun _ => .ite (fun hlt => .ok ?_) fun _ => .ok hone)
    fun _ => .ite (fun _ => .ok ?_) fun _ => .ite (fun _ => ?_) fun _ =>
    .ite (fun _ => control_returns h) fun _ => .ok h
  · rw [readParam, if_pos (by omega), ok_bind, writeParam, if_pos (by omega), ok_bind]
    exact .ok ⟨hone.cx_lt, hone.cy_lt, hone.top_lt, hone.bottom_lt, hone.nparams_le, hone.wrap⟩
  · exact ⟨hone.cx_lt, hone.cy_lt, hone.top_lt, hone.bottom_lt, hlt, hone.wrap⟩
  · exact ⟨h.cx_lt, h.cy_lt, h.top_lt, h.bottom_lt, h.nparams_le, h.wrap⟩
  · exact (csiDispatch_returns h hc).bind fun t ht => .ok (st_inv ht)

/-- The bytes after which the terminal may be out of its screen, or its cursor out of step. -/
def Breaks (s : Vt) (scr : Screen) (c : UInt8) : Prop :=
  s.st = .csi ∧ s.ScrollsAway (Char.ofUInt8 c) ∨ s.st = .esc ∧ Unwraps scr s c

instance (s : Vt) (scr : Screen) (c : UInt8) : Decidable (s.Breaks scr c) :=
  inferInstanceAs (Decidable (_ ∧ _ ∨ _ ∧ _))

lemma parse_returns (h : s.toVtRegs.Inv scr) (hc : ¬ s.Breaks scr c) :
    Returns (s.parse scr c) fun t => t.toVtRegs.Inv scr := by
  unfold parse
  cases hst : s.st with
  | normal => exact putcNormal_returns h
  | esc => exact putcEsc_returns h fun hE => hc (.inr ⟨hst, hE⟩)
  | csi => exact putcCsi_returns h fun hS => hc (.inl ⟨hst, hS⟩)
  | osc =>
    exact .ite (fun _ => .ok (st_inv h)) fun _ => .ite (fun _ => .ok (st_inv h)) fun _ => .ok h
  | oscEsc => exact .ok (st_inv h)

lemma putc_returns (h : s.toVtRegs.Inv scr) (hc : ¬ s.Breaks scr c) :
    Returns (s.putc scr c) fun t => t.toVtRegs.Inv scr := by
  refine (hideCursor_returns h.cx_lt h.cy_lt).bind fun t ht => ?_
  have hti : t.toVtRegs.Inv scr := ht.inv h
  have htc : ¬ t.Breaks scr c := by
    unfold Breaks ScrollsAway Unwraps param
    rw [ht]
    exact hc
  refine (parse_returns hti htc).bind fun u hu => ?_
  exact (showCursor_returns hu.cx_lt hu.cy_lt).mono fun _ hv => hv.inv hu

end Input

section Failures

variable {scr : Screen} {s t : Vt} {c : UInt8}

lemma scrollUp_ne_ok {b n : ℕ} (hb : b < scr.rows) (hn : b < n) : s.scrollUp scr 0 b n ≠ .ok t := by
  unfold scrollUp
  rw [height_eq (Nat.zero_le b) hb, Nat.sub_zero]
  have hk : (if n > b + 1 then b + 1 else n) = b + 1 := by
    split_ifs <;> omega
  have hlast : sub32 b (b + 1) = 2 ^ 32 - 1 := by
    unfold sub32
    omega
  dsimp only
  rw [hk, hlast]
  exact bind_ne_ok_right fun u => bind_ne_ok_left fun v => forLe_endless

lemma csiDispatch_ne_ok {f : Char} (h : s.toVtRegs.Inv scr) (hf : s.ScrollsAway f) :
    s.csiDispatch scr f ≠ .ok t := by
  obtain ⟨hpriv, htop, hn, rfl | ⟨rfl, hcy⟩⟩ := hf
  · have hS : s.csiDispatch scr 'S' = s.scrollUp scr s.top s.bottom (s.param 0 1) := if_neg hpriv
    rw [hS, htop]
    exact scrollUp_ne_ok h.bottom_lt hn
  · have hM : s.csiDispatch scr 'M' =
        if s.cy ≥ s.top ∧ s.cy ≤ s.bottom then s.scrollUp scr s.cy s.bottom (s.param 0 1)
        else .ok s := if_neg hpriv
    rw [hM, if_pos ⟨by omega, by omega⟩, hcy]
    exact scrollUp_ne_ok h.bottom_lt hn

lemma ofUInt8_inj {c d : UInt8} (h : Char.ofUInt8 c = Char.ofUInt8 d) : c = d := by
  have hval : c.toUInt32 = d.toUInt32 := congrArg Char.val h
  have hnat : c.toNat = d.toNat := by
    rw [← UInt8.toNat_toUInt32, hval, UInt8.toNat_toUInt32]
  exact UInt8.toNat_inj.1 hnat

lemma putcCsi_ne_ok (h : s.toVtRegs.Inv scr) (hc : s.ScrollsAway (Char.ofUInt8 c)) :
    s.putcCsi scr c ≠ .ok t := by
  have hletter : c = 'S'.toUInt8 ∨ c = 'M'.toUInt8 := by
    obtain ⟨-, -, -, hS | ⟨hM, -⟩⟩ := hc
    · exact .inl (ofUInt8_inj hS)
    · exact .inr (ofUInt8_inj hM)
  have hcsi : s.putcCsi scr c =
      s.csiDispatch scr (Char.ofUInt8 c) >>= fun s => .ok { s with st := .normal } := by
    unfold putcCsi
    dsimp only
    obtain rfl | rfl := hletter
    · rw [if_neg (by decide), if_neg (by decide), if_neg (by decide), if_pos (by decide)]
      rfl
    · rw [if_neg (by decide), if_neg (by decide), if_neg (by decide), if_pos (by decide)]
      rfl
  rw [hcsi]
  exact bind_ne_ok_left fun u => csiDispatch_ne_ok h hc

lemma putcEsc_unwraps (h : s.toVtRegs.Inv scr) (hc : Unwraps scr s c) :
    Returns (s.putcEsc scr c) fun t => ¬ t.toVtRegs.Inv scr ∧ t.cx < scr.cols ∧ t.cy < scr.rows := by
  obtain ⟨rfl, hw, hcols⟩ := hc
  have hpos := scr.cols_pos
  have hesc : s.putcEsc scr 'E'.toUInt8 = linefeed scr { s with st := .normal, cx := 0 } := by
    unfold putcEsc
    dsimp only
    rw [if_neg (by decide), if_neg (by decide), if_neg (by decide), if_neg (by decide),
      if_neg (by decide), if_neg (by decide), if_pos rfl]
  rw [hesc]
  refine (linefeed_returns (s := { s with st := .normal, cx := 0 }) h.cy_lt h.top_lt
    h.bottom_lt).mono fun t ⟨y, hy, ht⟩ => ?_
  rw [ht]
  refine ⟨fun hi => ?_, hpos, hy⟩
  have hx : 0 = scr.cols - 1 := hi.wrap hw
  omega

lemma putc_of_breaks (h : s.toVtRegs.Inv scr) (hc : s.Breaks scr c) :
    ¬ Returns (s.putc scr c) fun t => t.toVtRegs.Inv scr := by
  have hhide : Returns (s.hideCursor scr) s.Kept := hideCursor_returns h.cx_lt h.cy_lt
  obtain ⟨u, hu, hk⟩ := hhide
  have hui : u.toVtRegs.Inv scr := hk.inv h
  have huc : u.Breaks scr c := by
    unfold Breaks ScrollsAway Unwraps param
    rw [hk]
    exact hc
  have hputc : s.putc scr c = u.parse scr c >>= fun v => v.showCursor scr := by
    unfold putc
    rw [hu]
    rfl
  rw [hputc]
  obtain ⟨hst, hS⟩ | ⟨hst, hE⟩ := huc
  · rintro ⟨t, ht, -⟩
    refine bind_ne_ok_left (fun v => ?_) ht
    unfold parse
    rw [hst]
    exact putcCsi_ne_ok hui hS
  · obtain ⟨v, hv, hbad, hx, hy⟩ := putcEsc_unwraps hui hE
    have hparse : u.parse scr c = .ok v := by
      unfold parse
      rw [hst]
      exact hv
    have hshow : Returns (v.showCursor scr) v.Kept := showCursor_returns hx hy
    obtain ⟨w, hw, hkw⟩ := hshow
    rintro ⟨t, ht, hti⟩
    rw [hparse, ok_bind, hw] at ht
    cases ht
    rw [hkw] at hti
    exact hbad hti

end Failures

end Vt

namespace Screen

variable {scr : Screen} {s : Vt}

lemma attach_returns (cells altCells : ℕ → VtCell) :
    Returns (scr.attach cells altCells) fun s => s.toVtRegs.Inv scr := by
  have hpos := scr.cols_pos
  have hrows := scr.rows_two
  refine Vt.clearAll_returns.bind fun s hs => ?_
  have hi : s.toVtRegs.Inv scr := by
    refine hs.inv ⟨hpos, ?_, ?_, ?_, Nat.zero_le _, fun hw => absurd hw (by simp)⟩
    · change 0 < scr.rows
      omega
    · change 0 < sub32 scr.rows 1
      rw [scr.sub32_rows]
      omega
    · change sub32 scr.rows 1 < scr.rows
      rw [scr.sub32_rows]
      omega
  exact (Vt.showCursor_returns hi.cx_lt hi.cy_lt).mono fun t ht => ht.inv hi

lemma Inv.reachable (h : (scr.system.guarded fun s c => ¬ s.Breaks scr c).Reachable s) :
    s.toVtRegs.Inv scr := by
  refine h.invariant (I := fun s => s.toVtRegs.Inv scr) (fun s hs => ?_) fun s c t hi hst => ?_
  · obtain ⟨cells, altCells, hs⟩ := hs
    obtain ⟨t, ht, hi⟩ := scr.attach_returns cells altCells
    rw [hs] at ht
    cases ht
    exact hi
  · obtain ⟨u, hu, hui⟩ := Vt.putc_returns hi hst.1
    have hput : s.putc scr c = .ok t := hst.2
    rw [hput] at hu
    cases hu
    exact hui

theorem putc_safe (scr : Screen) :
    (∀ cells altCells, Returns (scr.attach cells altCells) fun s => s.toVtRegs.Inv scr) ∧
      ∀ s, (scr.system.guarded fun s c => ¬ s.Breaks scr c).Reachable s →
        s.toVtRegs.Inv scr ∧
          ∀ c, (Returns (s.putc scr c) fun t => t.toVtRegs.Inv scr) ↔ ¬ s.Breaks scr c := by
  refine ⟨attach_returns, fun s hs => ?_⟩
  have hi := Inv.reachable hs
  refine ⟨hi, fun c => ⟨fun hr hc => ?_, Vt.putc_returns hi⟩⟩
  exact Vt.putc_of_breaks hi hc hr

def blank : ℕ → VtCell := fun _ => ⟨32, 7⟩

def feedSafe (scr : Screen) (bs : List UInt8) (s : Vt) : Option Vt :=
  bs.foldlM (fun s c => if s.Breaks scr c then none else (s.putc scr c).toOption) s

lemma feedSafe_reachable {bs : List UInt8} {t : Vt}
    (hs : (scr.system.guarded fun s c => ¬ s.Breaks scr c).Reachable s) (h : feedSafe scr bs s = some t) :
    (scr.system.guarded fun s c => ¬ s.Breaks scr c).Reachable t := by
  induction bs generalizing s with
  | nil =>
    cases h
    exact hs
  | cons c bs ih =>
    rw [feedSafe, List.foldlM_cons] at h
    by_cases hc : s.Breaks scr c
    · rw [if_pos hc] at h
      exact nomatch h
    rw [if_neg hc] at h
    cases hput : s.putc scr c with
    | error e =>
      rw [hput] at h
      exact nomatch h
    | ok u =>
      rw [hput] at h
      exact ih (.step c hs ⟨hc, hput⟩) h

def small : Screen where
  cols := 4
  rows := 3
  hasCursor := false
  hasAlt := true
  cols_pos := by decide
  rows_two := by decide
  size_le := by decide

/-- `hi`, a new line, the region of the first two rows, and `ESC [ 3`. -/
def smallInput : List UInt8 := [104, 105, 10, 0x1B, 0x5B, 49, 59, 50, 114, 0x1B, 0x5B, 51]

theorem putc_safe_small : ∃ s t, small.attach blank blank = .ok s ∧ feedSafe small smallInput s = some t ∧
    t.toVtRegs.Inv small ∧ (Returns (t.putc small 84) fun u => u.toVtRegs.Inv small) ∧
      ¬ Returns (t.putc small 83) fun u => u.toVtRegs.Inv small := by
  obtain ⟨s, hs, -⟩ := (putc_safe small).1 blank blank
  have hrun : ((small.attach blank blank).toOption.bind (feedSafe small smallInput)).isSome = true := by
    decide +kernel
  rw [hs] at hrun
  obtain ⟨t, ht⟩ := Option.isSome_iff_exists.1 hrun
  have hbreaks : ((small.attach blank blank).toOption.bind (feedSafe small smallInput)).map
      (fun t => (decide (t.Breaks small 84), decide (t.Breaks small 83))) = some (false, true) := by
    decide +kernel
  rw [hs, show (Except.ok s).toOption.bind (feedSafe small smallInput) = some t from ht] at hbreaks
  obtain ⟨h84, h83⟩ := Prod.mk.inj (Option.some.inj hbreaks)
  have hsafe := (putc_safe small).2 t (feedSafe_reachable (.init ⟨blank, blank, hs⟩) ht)
  exact ⟨s, t, hs, ht, hsafe.1, (hsafe.2 84).2 (of_decide_eq_false h84),
    fun h => (hsafe.2 83).1 h (of_decide_eq_true h83)⟩

def narrow : Screen where
  cols := 1
  rows := 2
  hasCursor := false
  hasAlt := true
  cols_pos := le_rfl
  rows_two := le_rfl
  size_le := by norm_num

def feed (scr : Screen) (bs : List UInt8) (s : Vt) : Except Fault Vt :=
  bs.foldlM (fun s c => s.putc scr c) s

lemma feed_reachable {bs : List UInt8} {t : Vt} (hs : scr.system.Reachable s)
    (h : feed scr bs s = .ok t) : scr.system.Reachable t := by
  induction bs generalizing s with
  | nil =>
    cases h
    exact hs
  | cons c bs ih =>
    rw [feed, List.foldlM_cons] at h
    cases hc : s.putc scr c with
    | error e =>
      rw [hc] at h
      exact absurd h error_ne_ok
    | ok u =>
      rw [hc] at h
      exact ih (.step c hs hc) h

theorem not_putc_safe : ¬ ∀ (scr : Screen) (s : Vt), scr.system.Reachable s →
    ∀ c, Returns (s.putc scr c) fun t => t.toVtRegs.Inv scr := by
  intro h
  cases hs : narrow.attach blank blank >>= feed narrow [0x1B, 0x5B, 0x32] with
  | error e =>
    have hok : (narrow.attach blank blank >>= feed narrow [0x1B, 0x5B, 0x32]).isOk = true := by
      decide +kernel
    rw [hs] at hok
    exact absurd hok (by simp [Except.isOk, Except.toBool])
  | ok s =>
    have hbad : (narrow.attach blank blank >>= feed narrow [0x1B, 0x5B, 0x32] >>=
        fun s => s.putc narrow 0x53).isOk = false := by
      decide +kernel
    obtain ⟨u, hu, -⟩ := narrow.attach_returns blank blank
    have hreach : narrow.system.Reachable s := by
      rw [hu] at hs
      exact feed_reachable (.init ⟨blank, blank, hu⟩) hs
    obtain ⟨t, ht, -⟩ := h narrow s hreach 0x53
    rw [hs, ok_bind, ht] at hbad
    exact absurd hbad (by simp [Except.isOk, Except.toBool])

end Screen

end MyOS.Drivers
