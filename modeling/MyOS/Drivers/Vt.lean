import MyOS.Library.Arithmetic
import MyOS.Library.System

/-! The terminal emulator: UTF-8, escape sequences and the array of cells behind the screen. -/

namespace MyOS.Drivers

open Library

def maxParams : ℕ := 16

structure VtCell where
  cp : UInt16
  attr : UInt8
  deriving DecidableEq

inductive VtState
  | normal
  | esc
  | csi
  | osc
  | oscEsc
  deriving DecidableEq

/-- What a `screen_ops` says of its screen; `kmalloc` has given the arrays of the cells, at most one
block of the largest order each, or no array for the alternate screen. -/
structure Screen where
  cols : ℕ
  rows : ℕ
  hasCursor : Bool
  hasAlt : Bool
  cols_pos : 1 ≤ cols
  rows_two : 2 ≤ rows
  size_le : cols * rows * 4 ≤ 2 ^ 22

structure VtRegs where
  altActive : Bool := false
  cx : ℕ := 0
  cy : ℕ := 0
  wrapPending : Bool := false
  savedX : ℕ := 0
  savedY : ℕ := 0
  mainX : ℕ := 0
  mainY : ℕ := 0
  cursorVisible : Bool := true
  top : ℕ := 0
  bottom : ℕ := 0
  fg : UInt8 := 7
  bg : UInt8 := 0
  bold : Bool := false
  reverse : Bool := false
  st : VtState := .normal
  params : ℕ → ℕ := fun _ => 0
  nparams : ℕ := 0
  paramStarted : Bool := false
  priv : UInt8 := 0
  utfCp : UInt32 := 0
  utfNeed : ℕ := 0
  response : String := ""

/-- `shown` is what the driver has drawn last at each place, `hwCursor` where it has its cursor. -/
structure Vt extends VtRegs where
  cells : ℕ → VtCell
  altCells : ℕ → VtCell
  shown : ℕ → ℕ → Option VtCell := fun _ _ => none
  hwCursor : Option (ℕ × ℕ × Bool) := none

namespace Vt

variable (scr : Screen) (s : Vt)

def curAttr : UInt8 :=
  let f := if s.bold ∧ s.fg < 8 then s.fg + 8 else s.fg
  let b := s.bg
  if s.reverse then b ||| f <<< 4 else f ||| b <<< 4

/-! ### Drawing -/

def read (i : ℕ) : Except Fault VtCell :=
  if i < scr.cols * scr.rows then .ok (s.cells i) else .error .outside

def store (i : ℕ) (c : VtCell) : Except Fault Vt :=
  if i < scr.cols * scr.rows then .ok { s with cells := Function.update s.cells i c }
  else .error .outside

def paint (x y : ℕ) (c : VtCell) : Except Fault Vt :=
  if x < scr.cols ∧ y < scr.rows then
    .ok { s with shown := Function.update s.shown x (Function.update (s.shown x) y (some c)) }
  else .error .outside

def memmove (dst src n : ℕ) : Except Fault Vt :=
  if dst + n ≤ scr.cols * scr.rows ∧ src + n ≤ scr.cols * scr.rows then
    .ok { s with cells := fun i =>
      if dst ≤ i ∧ i < dst + n then s.cells (src + (i - dst)) else s.cells i }
  else .error .outside

def draw (x y : ℕ) : Except Fault Vt := do
  let c ← s.read scr (add32 (mul32 y scr.cols) x)
  s.paint scr x y c

def showCursor : Except Fault Vt :=
  let x := if s.cx < scr.cols then s.cx else sub32 scr.cols 1
  if scr.hasCursor then .ok { s with hwCursor := some (x, s.cy, s.cursorVisible) }
  else if s.cursorVisible then do
    let c ← s.read scr (add32 (mul32 s.cy scr.cols) x)
    s.paint scr x s.cy { c with attr := c.attr >>> 4 ||| c.attr <<< 4 }
  else .ok s

def hideCursor : Except Fault Vt :=
  if ¬ scr.hasCursor ∧ s.cursorVisible then
    s.draw scr (if s.cx < scr.cols then s.cx else sub32 scr.cols 1) s.cy
  else .ok s

def redraw : Except Fault Vt :=
  forLt 0 scr.rows (fun y => forLt 0 scr.cols fun x s => s.draw scr x y) s

def clearCells (first last : ℕ) : Except Fault Vt :=
  let blank : VtCell := ⟨32, s.bg <<< 4 ||| s.fg⟩
  forLt first last (fun i s => do
    let s ← s.store scr i blank
    s.paint scr (i % scr.cols) (i / scr.cols) blank) s

def scrollUp (t b n : ℕ) : Except Fault Vt := do
  let n := if n > add32 (sub32 b t) 1 then add32 (sub32 b t) 1 else n
  let s ← s.memmove scr (mul32 t scr.cols) (mul32 (add32 t n) scr.cols)
    (sub32 (sub32 (add32 b 1) t) n * scr.cols)
  let s ← forLe t (sub32 b n) (fun y => forLt 0 scr.cols fun x s => s.draw scr x y) s
  s.clearCells scr (mul32 (sub32 (add32 b 1) n) scr.cols) (mul32 (add32 b 1) scr.cols)

def scrollDown (t b n : ℕ) : Except Fault Vt := do
  let n := if n > add32 (sub32 b t) 1 then add32 (sub32 b t) 1 else n
  let s ← s.memmove scr (mul32 (add32 t n) scr.cols) (mul32 t scr.cols)
    (sub32 (sub32 (add32 b 1) t) n * scr.cols)
  let s ← forLe (add32 t n) b (fun y => forLt 0 scr.cols fun x s => s.draw scr x y) s
  s.clearCells scr (mul32 t scr.cols) (mul32 (add32 t n) scr.cols)

def linefeed : Except Fault Vt :=
  if s.cy = s.bottom then s.scrollUp scr s.top s.bottom 1
  else if s.cy < sub32 scr.rows 1 then .ok { s with cy := add32 s.cy 1 }
  else .ok s

def wrap : Except Fault Vt :=
  if s.wrapPending then linefeed scr { s with wrapPending := false, cx := 0 } else .ok s

def putChar (cp : UInt32) : Except Fault Vt := do
  let s ← s.wrap scr
  let i := add32 (mul32 s.cy scr.cols) s.cx
  let c : VtCell := ⟨if cp > 0xFFFF then 63 else cp.toUInt16, s.curAttr⟩
  let s ← s.store scr i c
  let s ← s.paint scr s.cx s.cy c
  if s.cx = sub32 scr.cols 1 then .ok { s with wrapPending := true }
  else .ok { s with cx := add32 s.cx 1 }

/-! ### The CSI commands -/

def readParam (i : ℕ) : Except Fault ℕ :=
  if i < maxParams then .ok (s.params i) else .error .outside

def writeParam (i v : ℕ) : Except Fault Vt :=
  if i < maxParams then .ok { s with params := Function.update s.params i v }
  else .error .outside

def param (i d : ℕ) : ℕ := if i < s.nparams ∧ s.params i ≠ 0 then s.params i else d

def setCursor (x y : ℕ) : Vt :=
  { s with cx := min x (sub32 scr.cols 1), cy := min y (sub32 scr.rows 1), wrapPending := false }

def ansiToVga : ℕ → UInt8
  | 1 => 4
  | 2 => 2
  | 3 => 6
  | 4 => 1
  | 5 => 5
  | 6 => 3
  | 7 => 7
  | _ => 0

def sgrColor (i : ℕ) : Except Fault (UInt8 × ℕ) := do
  let kind ← s.readParam (i + 1)
  if kind = 5 ∧ i + 2 < s.nparams then
    let n ← s.readParam (i + 2)
    return (if n < 8 then ansiToVga n else if n < 16 then ansiToVga (n - 8) + 8 else 7, 2)
  else if kind = 2 ∧ i + 4 < s.nparams then
    let r ← s.readParam (i + 2)
    let g ← s.readParam (i + 3)
    let b ← s.readParam (i + 4)
    let col := (if r > 127 then 4 else 0) + (if g > 127 then 2 else 0) + (if b > 127 then 1 else 0)
    return (ansiToVga col + (if add32 (add32 r g) b > 500 then 8 else 0), 4)
  else return (7, 0)

def sgrLoop : ℕ → ℕ → Vt → Except Fault Vt
  | 0, _, s => .ok s
  | fuel + 1, i, s =>
    if i < s.nparams then do
      let p ← s.readParam i
      if p = 0 then
        sgrLoop fuel (i + 1) { s with fg := 7, bg := 0, bold := false, reverse := false }
      else if p = 1 then sgrLoop fuel (i + 1) { s with bold := true }
      else if p = 22 then sgrLoop fuel (i + 1) { s with bold := false }
      else if p = 7 then sgrLoop fuel (i + 1) { s with reverse := true }
      else if p = 27 then sgrLoop fuel (i + 1) { s with reverse := false }
      else if p ≥ 30 ∧ p ≤ 37 then sgrLoop fuel (i + 1) { s with fg := ansiToVga (p - 30) }
      else if p = 39 then sgrLoop fuel (i + 1) { s with fg := 7 }
      else if p ≥ 40 ∧ p ≤ 47 then sgrLoop fuel (i + 1) { s with bg := ansiToVga (p - 40) }
      else if p = 49 then sgrLoop fuel (i + 1) { s with bg := 0 }
      else if p ≥ 90 ∧ p ≤ 97 then sgrLoop fuel (i + 1) { s with fg := ansiToVga (p - 90) + 8 }
      else if p ≥ 100 ∧ p ≤ 107 then sgrLoop fuel (i + 1) { s with bg := ansiToVga (p - 100) + 8 }
      else if (p = 38 ∨ p = 48) ∧ i + 1 < s.nparams then do
        let (col, n) ← s.sgrColor i
        if p = 38 then sgrLoop fuel (i + n + 1) { s with fg := col }
        else sgrLoop fuel (i + n + 1) { s with bg := col }
      else sgrLoop fuel (i + 1) s
    else .ok s

def sgr : Except Fault Vt :=
  let s := if s.nparams = 0 then
    { s with nparams := 1, params := Function.update s.params 0 0 } else s
  sgrLoop s.nparams 0 s

def setAltScreen (on : Bool) : Except Fault Vt :=
  if on = s.altActive ∨ ¬ scr.hasAlt then .ok s
  else if on then do
    let s : Vt := { s with altCells := s.cells, mainX := s.cx, mainY := s.cy }
    let s ← s.clearCells scr 0 (mul32 scr.cols scr.rows)
    return { s with altActive := on }
  else do
    let s : Vt := { s with cells := s.altCells }
    let s ← (s.setCursor scr s.mainX s.mainY).redraw scr
    return { s with altActive := on }

def decModes (on : Bool) : Except Fault Vt :=
  forLt 0 s.nparams (fun i s => do
    let p ← s.readParam i
    if p = 25 then return { s with cursorVisible := on }
    else if p = 1049 ∨ p = 47 ∨ p = 1047 then s.setAltScreen scr on
    else return s) s

def eraseDisplay (mode : ℕ) : Except Fault Vt :=
  let pos := add32 (mul32 s.cy scr.cols) s.cx
  if mode = 0 then s.clearCells scr pos (mul32 scr.cols scr.rows)
  else if mode = 1 then s.clearCells scr 0 (add32 pos 1)
  else s.clearCells scr 0 (mul32 scr.cols scr.rows)

def eraseLine (mode : ℕ) : Except Fault Vt :=
  let line := mul32 s.cy scr.cols
  let x := min s.cx (sub32 scr.cols 1)
  if mode = 0 then s.clearCells scr (add32 line x) (add32 line scr.cols)
  else if mode = 1 then s.clearCells scr line (add32 (add32 line x) 1)
  else s.clearCells scr line (add32 line scr.cols)

def insertChars (n : ℕ) : Except Fault Vt := do
  let line := mul32 s.cy scr.cols
  let n := min n (sub32 scr.cols s.cx)
  let s ← s.memmove scr (add32 (add32 line s.cx) n) (add32 line s.cx)
    (sub32 (sub32 scr.cols s.cx) n)
  let s ← forLt (add32 s.cx n) scr.cols (fun x t => t.draw scr x s.cy) s
  s.clearCells scr (add32 line s.cx) (add32 (add32 line s.cx) n)

def deleteChars (n : ℕ) : Except Fault Vt := do
  let line := mul32 s.cy scr.cols
  let n := min n (sub32 scr.cols s.cx)
  let s ← s.memmove scr (add32 line s.cx) (add32 (add32 line s.cx) n)
    (sub32 (sub32 scr.cols s.cx) n)
  let s ← forLt s.cx (sub32 scr.cols n) (fun x t => t.draw scr x s.cy) s
  s.clearCells scr (sub32 (add32 line scr.cols) n) (add32 line scr.cols)

def setRegion : Vt :=
  let t := sub32 (s.param 0 1) 1
  let b := sub32 (s.param 1 scr.rows) 1
  if t < b ∧ b < scr.rows then setCursor scr { s with top := t, bottom := b } 0 0 else s

def csiDispatch (f : Char) : Except Fault Vt :=
  let n := s.param 0 1
  if s.priv = '?'.toUInt8 then
    if f = 'h' ∨ f = 'l' then s.decModes scr (f = 'h') else .ok s
  else
    match f with
    | 'A' => .ok (s.setCursor scr s.cx (if s.cy ≥ n then sub32 s.cy n else 0))
    | 'B' => .ok (s.setCursor scr s.cx (add32 s.cy n))
    | 'C' => .ok (s.setCursor scr (add32 s.cx n) s.cy)
    | 'D' => .ok (s.setCursor scr (if s.cx ≥ n then sub32 s.cx n else 0) s.cy)
    | 'E' => .ok (s.setCursor scr 0 (add32 s.cy n))
    | 'F' => .ok (s.setCursor scr 0 (if s.cy ≥ n then sub32 s.cy n else 0))
    | 'G' => .ok (s.setCursor scr (sub32 n 1) s.cy)
    | 'd' => .ok (s.setCursor scr s.cx (sub32 n 1))
    | 'H' | 'f' => .ok (s.setCursor scr (sub32 (s.param 1 1) 1) (sub32 (s.param 0 1) 1))
    | 'J' => s.eraseDisplay scr (s.param 0 0)
    | 'K' => s.eraseLine scr (s.param 0 0)
    | 'L' =>
      if s.cy ≥ s.top ∧ s.cy ≤ s.bottom then s.scrollDown scr s.cy s.bottom n else .ok s
    | 'M' =>
      if s.cy ≥ s.top ∧ s.cy ≤ s.bottom then s.scrollUp scr s.cy s.bottom n else .ok s
    | 'S' => s.scrollUp scr s.top s.bottom n
    | 'T' => s.scrollDown scr s.top s.bottom n
    | '@' => s.insertChars scr n
    | 'P' => s.deleteChars scr n
    | 'X' =>
      let line := mul32 s.cy scr.cols
      s.clearCells scr (add32 line s.cx) (add32 line (min (add32 s.cx n) scr.cols))
    | 'm' => s.sgr
    | 'r' => .ok (s.setRegion scr)
    | 's' => .ok { s with savedX := s.cx, savedY := s.cy }
    | 'u' => .ok (s.setCursor scr s.savedX s.savedY)
    | 'n' =>
      if s.param 0 0 = 6 then
        .ok { s with response := "\x1b[" ++ toString (add32 s.cy 1) ++ ";" ++
                toString (add32 (min s.cx (sub32 scr.cols 1)) 1) ++ "R" }
      else .ok s
    | _ => .ok s

/-! ### The input -/

def control (c : UInt8) : Except Fault Vt :=
  if c = 0x0A then linefeed scr { s with cx := 0, wrapPending := false }
  else if c = 0x0D then .ok { s with cx := 0, wrapPending := false }
  else if c = 0x08 then .ok { s with cx := s.cx - 1, wrapPending := false }
  else if c = 0x09 then .ok { s with cx := min (add32 s.cx 8 / 8 * 8) (sub32 scr.cols 1) }
  else if c = 0x1B then .ok { s with st := .esc }
  else .ok s

def putcPlain (c : UInt8) : Except Fault Vt :=
  if c < 0x20 ∨ c = 0x7F then s.control scr c
  else if c < 0x80 then s.putChar scr c.toUInt32
  else if c &&& 0xE0 = 0xC0 then .ok { s with utfCp := (c &&& 0x1F).toUInt32, utfNeed := 1 }
  else if c &&& 0xF0 = 0xE0 then .ok { s with utfCp := (c &&& 0x0F).toUInt32, utfNeed := 2 }
  else if c &&& 0xF8 = 0xF0 then .ok { s with utfCp := (c &&& 0x07).toUInt32, utfNeed := 3 }
  else s.putChar scr 63

def putcNormal (c : UInt8) : Except Fault Vt :=
  if s.utfNeed ≠ 0 then
    if c &&& 0xC0 = 0x80 then
      let s : Vt := { s with
        utfCp := s.utfCp <<< 6 ||| (c &&& 0x3F).toUInt32
        utfNeed := s.utfNeed - 1 }
      if s.utfNeed = 0 then s.putChar scr s.utfCp else .ok s
    else do
      let s ← putChar scr { s with utfNeed := 0 } 63
      s.putcPlain scr c
  else s.putcPlain scr c

def putcEsc (c : UInt8) : Except Fault Vt :=
  let s : Vt := { s with st := .normal }
  if c = '['.toUInt8 then
    .ok { s with st := .csi, nparams := 0, paramStarted := false, priv := 0, params := fun _ => 0 }
  else if c = ']'.toUInt8 then .ok { s with st := .osc }
  else if c = '7'.toUInt8 then .ok { s with savedX := s.cx, savedY := s.cy }
  else if c = '8'.toUInt8 then .ok (s.setCursor scr s.savedX s.savedY)
  else if c = 'M'.toUInt8 then
    if s.cy = s.top then s.scrollDown scr s.top s.bottom 1
    else if s.cy > 0 then .ok { s with cy := s.cy - 1 }
    else .ok s
  else if c = 'D'.toUInt8 then s.linefeed scr
  else if c = 'E'.toUInt8 then linefeed scr { s with cx := 0 }
  else if c = 'c'.toUInt8 then do
    let s : Vt := { s with
      fg := 7, bg := 0, bold := false, reverse := false, top := 0, bottom := sub32 scr.rows 1,
      cursorVisible := true }
    let s ← s.clearCells scr 0 (mul32 scr.cols scr.rows)
    return s.setCursor scr 0 0
  else .ok s

def putcCsi (c : UInt8) : Except Fault Vt :=
  if '0'.toUInt8 ≤ c ∧ c ≤ '9'.toUInt8 then do
    let s : Vt := if s.nparams = 0 then { s with nparams := 1 } else s
    let p ← s.readParam (s.nparams - 1)
    let s ← s.writeParam (s.nparams - 1) (add32 (mul32 p 10) (c.toNat - 48))
    return { s with paramStarted := true }
  else if c = ';'.toUInt8 then
    let s : Vt := if s.nparams = 0 then { s with nparams := 1 } else s
    if s.nparams < maxParams then .ok { s with nparams := s.nparams + 1 } else .ok s
  else if c = '?'.toUInt8 ∨ c = '>'.toUInt8 ∨ c = '='.toUInt8 then .ok { s with priv := c }
  else if 0x40 ≤ c ∧ c ≤ 0x7E then do
    let s ← s.csiDispatch scr (Char.ofUInt8 c)
    return { s with st := .normal }
  else if c < 0x20 then s.control scr c
  else .ok s

def parse (c : UInt8) : Except Fault Vt :=
  match s.st with
  | .normal => s.putcNormal scr c
  | .esc => s.putcEsc scr c
  | .csi => s.putcCsi scr c
  | .osc =>
    if c = 0x07 then .ok { s with st := .normal }
    else if c = 0x1B then .ok { s with st := .oscEsc }
    else .ok s
  | .oscEsc => .ok { s with st := if c = '\\'.toUInt8 then .normal else .osc }

def putc (c : UInt8) : Except Fault Vt := do
  let s ← s.hideCursor scr
  let s ← s.parse scr c
  s.showCursor scr

end Vt

def Screen.attach (scr : Screen) (cells altCells : ℕ → VtCell) : Except Fault Vt := do
  let s : Vt := { cells, altCells, bottom := sub32 scr.rows 1 }
  let s ← s.clearCells scr 0 (mul32 scr.cols scr.rows)
  s.showCursor scr

def Screen.system (scr : Screen) : System Vt UInt8 where
  init s := ∃ cells altCells, scr.attach cells altCells = .ok s
  step s c t := s.putc scr c = .ok t

end MyOS.Drivers
