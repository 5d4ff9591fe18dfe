import Mathlib.Tactic

/-! The PS/2 keyboard: `keyboard_irq` takes one byte of a scancode. -/

namespace MyOS.Drivers

open Function

def keymapNormal : List UInt8 := [
  0, 27, 49, 50, 51, 52, 53, 54, 55, 56, 57, 48, 45, 61, 8, 9,
  113, 119, 101, 114, 116, 121, 117, 105, 111, 112, 91, 93, 10, 0, 97, 115,
  100, 102, 103, 104, 106, 107, 108, 59, 39, 96, 0, 92, 122, 120, 99, 118,
  98, 110, 109, 44, 46, 47, 0, 42, 0, 32]

def keymapShift : List UInt8 := [
  0, 27, 33, 64, 35, 36, 37, 94, 38, 42, 40, 41, 95, 43, 8, 9,
  81, 87, 69, 82, 84, 89, 85, 73, 79, 80, 123, 125, 10, 0, 65, 83,
  68, 70, 71, 72, 74, 75, 76, 58, 34, 126, 0, 124, 90, 88, 67, 86,
  66, 78, 77, 60, 62, 63, 0, 42, 0, 32]

def scLshift : UInt8 := 0x2A
def scRshift : UInt8 := 0x36
def scCtrl : UInt8 := 0x1D
def scCaps : UInt8 := 0x3A

structure Keyboard where
  shiftDown : Bool
  ctrlDown : Bool
  capsLock : Bool
  extended : Bool
  deriving DecidableEq

def isLower (c : UInt8) : Bool := 97 ≤ c && c ≤ 122
def isUpper (c : UInt8) : Bool := 65 ≤ c && c ≤ 90

def sequenceOf (code : UInt8) : List UInt8 :=
  if code = 0x48 then [27, 91, 65]
  else if code = 0x50 then [27, 91, 66]
  else if code = 0x4D then [27, 91, 67]
  else if code = 0x4B then [27, 91, 68]
  else if code = 0x47 then [27, 91, 72]
  else if code = 0x4F then [27, 91, 70]
  else if code = 0x52 then [27, 91, 50, 126]
  else if code = 0x53 then [27, 91, 51, 126]
  else if code = 0x49 then [27, 91, 53, 126]
  else if code = 0x51 then [27, 91, 54, 126]
  else if code = 0x1C then [10]
  else if code = 0x35 then [47]
  else []

namespace Keyboard

variable (s : Keyboard)

def typed (code : UInt8) : List UInt8 :=
  let c := (if s.shiftDown then keymapShift else keymapNormal).getD code.toNat 0
  if c = 0 then []
  else
    let c := if s.capsLock && (isLower c || isUpper c) then c ^^^ 0x20 else c
    let c := if s.ctrlDown && isLower c then c - 97 + 1 else c
    [c]

def plainKey (code : UInt8) (released : Bool) : Keyboard × List UInt8 :=
  if code = scLshift ∨ code = scRshift then ({ s with shiftDown := !released }, [])
  else if code = scCtrl then ({ s with ctrlDown := !released }, [])
  else if code = scCaps then (if released then s else { s with capsLock := !s.capsLock }, [])
  else if released then (s, [])
  else (s, s.typed code)

def extendedKey (code : UInt8) (released : Bool) : Keyboard × List UInt8 :=
  let s := { s with extended := false }
  if code = scCtrl then ({ s with ctrlDown := !released }, [])
  else if code = 0x2A ∨ code = 0x36 ∨ released = true then (s, [])
  else (s, sequenceOf code)

def keyboardIrq (sc : UInt8) : Keyboard × List UInt8 :=
  if sc = 0xE0 then ({ s with extended := true }, [])
  else
    let released := decide (sc &&& 0x80 ≠ 0)
    let code := sc &&& 0x7F
    if s.extended then s.extendedKey code released else s.plainKey code released

def feed : Keyboard → List UInt8 → Keyboard × List UInt8
  | s, [] => (s, [])
  | s, sc :: bytes =>
    let r := (s.keyboardIrq sc).1.feed bytes
    (r.1, (s.keyboardIrq sc).2 ++ r.2)

def start : Keyboard := ⟨false, false, false, false⟩

end Keyboard

/-- A key by its code in the set, with the prefix or without it. The break code of `0x60` would be the prefix. -/
structure Key where
  prefixed : Bool
  code : UInt8
  valid : code < 0x80 ∧ code ≠ 0x60
  deriving DecidableEq

inductive KeyEvent
  | press (k : Key)
  | release (k : Key)

namespace KeyEvent

def bytes : KeyEvent → List UInt8
  | .press k => if k.prefixed then [0xE0, k.code] else [k.code]
  | .release k => if k.prefixed then [0xE0, k.code ||| 0x80] else [k.code ||| 0x80]

end KeyEvent

namespace Key

def lshift : Key := ⟨false, 0x2A, by decide⟩
def rshift : Key := ⟨false, 0x36, by decide⟩
def lctrl : Key := ⟨false, 0x1D, by decide⟩
def rctrl : Key := ⟨true, 0x1D, by decide⟩
def caps : Key := ⟨false, 0x3A, by decide⟩

def letter (k : Key) : Bool := !k.prefixed && isLower (keymapNormal.getD k.code.toNat 0)

end Key

structure Keys where
  held : Key → Bool
  capsLock : Bool

namespace Keys

variable (r : Keys)

def shift : Bool := r.held .lshift || r.held .rshift
def ctrl : Bool := r.held .lctrl || r.held .rctrl

def start : Keys := ⟨fun _ => false, false⟩

def step : KeyEvent → Keys
  | .press k => ⟨update r.held k true, if k = .caps then !r.capsLock else r.capsLock⟩
  | .release k => ⟨update r.held k false, r.capsLock⟩

def char (k : Key) : List UInt8 :=
  let c := (if r.shift then keymapShift else keymapNormal).getD k.code.toNat 0
  if c = 0 then []
  else if k.letter then
    if r.ctrl then [keymapNormal.getD k.code.toNat 0 - 97 + 1] else if r.capsLock then [c ^^^ 0x20] else [c]
  else [c]

def modifier (k : Key) : Bool := k = .lshift || k = .rshift || k = .lctrl || k = .rctrl || k = .caps

def chars : KeyEvent → List UInt8
  | .press k =>
    if modifier k then []
    else if k.prefixed then (if k.code = 0x2A ∨ k.code = 0x36 then [] else sequenceOf k.code)
    else r.char k
  | .release _ => []

/-- One key of a pair is not released while the other is held, and no letter is pressed with Ctrl when Shift and Caps
Lock make it a capital. -/
def Careful : KeyEvent → Prop
  | .press k => ¬ (k.letter = true ∧ r.ctrl = true ∧ r.shift ≠ r.capsLock)
  | .release k => (k = .lshift → r.held .rshift = false) ∧ (k = .rshift → r.held .lshift = false) ∧
      (k = .lctrl → r.held .rctrl = false) ∧ (k = .rctrl → r.held .lctrl = false)

end Keys

namespace Keyboard

variable {s : Keyboard} {r : Keys} {k : Key}

lemma code_bits (h : k.code < 0x80 ∧ k.code ≠ 0x60) :
    (k.code ≠ 0xE0 ∧ k.code &&& 0x80 = 0 ∧ k.code &&& 0x7F = k.code) ∧
      k.code ||| 0x80 ≠ 0xE0 ∧ (k.code ||| 0x80) &&& 0x80 ≠ 0 ∧ (k.code ||| 0x80) &&& 0x7F = k.code := by
  have hall : ∀ n < 128, n ≠ 0x60 → (UInt8.ofNat n ≠ 0xE0 ∧ UInt8.ofNat n &&& 0x80 = 0 ∧
      UInt8.ofNat n &&& 0x7F = UInt8.ofNat n) ∧ UInt8.ofNat n ||| 0x80 ≠ 0xE0 ∧
      (UInt8.ofNat n ||| 0x80) &&& 0x80 ≠ 0 ∧ (UInt8.ofNat n ||| 0x80) &&& 0x7F = UInt8.ofNat n := by
    decide +kernel
  have hcode := hall k.code.toNat (UInt8.lt_iff_toNat_lt.1 h.1) fun hn => h.2 (UInt8.toNat_inj.1 hn)
  rwa [UInt8.ofNat_toNat] at hcode

def onKey (s : Keyboard) (k : Key) (released : Bool) : Keyboard × List UInt8 :=
  if k.prefixed then { s with extended := true }.extendedKey k.code released else s.plainKey k.code released

lemma feed_press (hs : s.extended = false) : s.feed (KeyEvent.press k).bytes = s.onKey k false := by
  obtain ⟨⟨h₁, h₂, h₃⟩, -⟩ := code_bits k.valid
  rw [KeyEvent.bytes, onKey]
  cases k.prefixed <;> simp [feed, keyboardIrq, h₁, h₂, h₃, hs]

lemma feed_release (hs : s.extended = false) : s.feed (KeyEvent.release k).bytes = s.onKey k true := by
  obtain ⟨-, h₁, h₂, h₃⟩ := code_bits k.valid
  rw [KeyEvent.bytes, onKey]
  cases k.prefixed <;> simp [feed, keyboardIrq, h₁, h₂, h₃, hs]

lemma typed_code : ∀ n < 128, ∀ shift ctrl caps : Bool,
    (typed ⟨shift, ctrl, caps, false⟩ (UInt8.ofNat n) =
      (let c := (if shift then keymapShift else keymapNormal).getD n 0
      if c = 0 then []
      else if isLower (keymapNormal.getD n 0) then
        if ctrl then [keymapNormal.getD n 0 - 97 + 1] else if caps then [c ^^^ 0x20] else [c]
      else [c])) ↔ ¬ (isLower (keymapNormal.getD n 0) = true ∧ ctrl = true ∧ shift ≠ caps) := by
  decide +kernel

structure Shows (s : Keyboard) (r : Keys) : Prop where
  shift : s.shiftDown = r.shift
  ctrl : s.ctrlDown = r.ctrl
  extended : s.extended = false

lemma typed_iff (h : s.Shows r) (hc : s.capsLock = r.capsLock) (hk : k.prefixed = false) :
    s.typed k.code = r.char k ↔ ¬ (k.letter = true ∧ r.ctrl = true ∧ r.shift ≠ r.capsLock) := by
  have hcode := typed_code k.code.toNat (UInt8.lt_iff_toNat_lt.1 k.valid.1) r.shift r.ctrl r.capsLock
  have hs : s = ⟨r.shift, r.ctrl, r.capsLock, false⟩ := by
    rw [← h.shift, ← h.ctrl, ← hc, ← h.extended]
  have hl : k.letter = isLower (keymapNormal.getD k.code.toNat 0) := by rw [Key.letter, hk]; rfl
  rw [UInt8.ofNat_toNat] at hcode
  rw [Keys.char, hl, hs]
  exact hcode

end Keyboard

namespace Keys

variable {r : Keys} {k : Key}

lemma shift_press : (r.step (.press k)).shift = (decide (k = .lshift ∨ k = .rshift) || r.shift) := by
  simp only [step, shift, update_apply, eq_comm (b := k)]
  by_cases h₁ : k = .lshift <;> by_cases h₂ : k = .rshift <;> simp [h₁, h₂]

lemma ctrl_press : (r.step (.press k)).ctrl = (decide (k = .lctrl ∨ k = .rctrl) || r.ctrl) := by
  simp only [step, ctrl, update_apply, eq_comm (b := k)]
  by_cases h₁ : k = .lctrl <;> by_cases h₂ : k = .rctrl <;> simp [h₁, h₂]

lemma shift_release : (r.step (.release k)).shift =
    (decide (k ≠ .lshift) && r.held .lshift || decide (k ≠ .rshift) && r.held .rshift) := by
  simp only [step, shift, update_apply, eq_comm (b := k)]
  by_cases h₁ : k = .lshift <;> by_cases h₂ : k = .rshift <;> simp [h₁, h₂]

lemma ctrl_release : (r.step (.release k)).ctrl =
    (decide (k ≠ .lctrl) && r.held .lctrl || decide (k ≠ .rctrl) && r.held .rctrl) := by
  simp only [step, ctrl, update_apply, eq_comm (b := k)]
  by_cases h₁ : k = .lctrl <;> by_cases h₂ : k = .rctrl <;> simp [h₁, h₂]

end Keys

lemma Key.eq_iff {j k : Key} : j = k ↔ j.prefixed = k.prefixed ∧ j.code = k.code := by
  rcases j with ⟨p, c, h⟩
  rcases k with ⟨q, d, h'⟩
  simp

namespace Keyboard

variable {s : Keyboard} {r : Keys} {k : Key}

lemma onKey_shift (h : k = .lshift ∨ k = .rshift) (b : Bool) : s.onKey k b = ({ s with shiftDown := !b }, []) := by
  rcases h with rfl | rfl <;> rfl

lemma onKey_ctrl (h : k = .lctrl ∨ k = .rctrl) (hs : s.extended = false) (b : Bool) :
    s.onKey k b = ({ s with ctrlDown := !b }, []) := by
  rcases h with rfl | rfl
  · rfl
  · change ({ s with ctrlDown := !b, extended := false }, []) = _
    rw [← hs]

lemma onKey_caps (b : Bool) : s.onKey .caps b = (if b then s else { s with capsLock := !s.capsLock }, []) := rfl

lemma onKey_other (h : Keys.modifier k = false) (hs : s.extended = false) (b : Bool) :
    s.onKey k b = (s, if b then [] else if k.prefixed then
      (if k.code = 0x2A ∨ k.code = 0x36 then [] else sequenceOf k.code) else s.typed k.code) := by
  have hs' : ({ s with extended := false } : Keyboard) = s := by rw [← hs]
  simp only [Keys.modifier, Bool.or_eq_false_iff, decide_eq_false_iff_not, Key.eq_iff, Key.lshift, Key.rshift, Key.lctrl,
    Key.rctrl, Key.caps] at h
  obtain ⟨⟨⟨⟨h₁, h₂⟩, h₃⟩, h₄⟩, h₅⟩ := h
  rw [onKey]
  cases hp : k.prefixed with
  | true =>
    have hc : k.code ≠ scCtrl := fun hc => h₄ ⟨hp, hc⟩
    simp only [if_true, extendedKey, if_neg hc, hs']
    by_cases hf : k.code = 0x2A ∨ k.code = 0x36
    · rw [if_pos (hf.imp_right Or.inl), if_pos hf, ite_self]
    · cases b <;> simp [not_or.1 hf]
  | false =>
    have hc : ¬ (k.code = scLshift ∨ k.code = scRshift) := by
      rintro (hc | hc)
      · exact h₁ ⟨hp, hc⟩
      · exact h₂ ⟨hp, hc⟩
    have hc' : k.code ≠ scCtrl := fun hc => h₃ ⟨hp, hc⟩
    have hc'' : k.code ≠ scCaps := fun hc => h₅ ⟨hp, hc⟩
    simp only [plainKey, if_neg hc, if_neg hc', if_neg hc'', Bool.false_eq_true, if_false]
    cases b <;> rfl

def Conforms (s : Keyboard) (r : Keys) (e : KeyEvent) : Prop :=
  (s.feed e.bytes).1.Shows (r.step e) ∧ (s.feed e.bytes).2 = r.chars e

lemma modifier_cases (k : Key) : (k = .lshift ∨ k = .rshift) ∨ (k = .lctrl ∨ k = .rctrl) ∨ k = .caps ∨
    Keys.modifier k = false := by
  simp only [Keys.modifier]
  grind

lemma letter_modifier (h : Keys.modifier k = true) : k.letter = false := by
  simp only [Keys.modifier, Bool.or_eq_true, decide_eq_true_eq] at h
  rcases h with (((rfl | rfl) | rfl) | rfl) | rfl <;> decide

lemma press_conforms_iff (h : s.Shows r) (hc : s.capsLock = r.capsLock) :
    s.Conforms r (.press k) ↔ r.Careful (.press k) := by
  rw [Conforms, feed_press h.extended]
  rcases modifier_cases k with hk | hk | rfl | hk
  · have hm : Keys.modifier k = true := by rcases hk with rfl | rfl <;> rfl
    have hl := letter_modifier hm
    rw [onKey_shift hk, Keys.chars, if_pos hm, Keys.Careful, hl]
    refine iff_of_true ⟨⟨?_, ?_, h.extended⟩, rfl⟩ (by simp)
    · rw [Keys.shift_press]
      simp [hk]
    · rw [Keys.ctrl_press, h.ctrl]
      rcases hk with rfl | rfl <;> rfl
  · have hm : Keys.modifier k = true := by rcases hk with rfl | rfl <;> rfl
    have hl := letter_modifier hm
    rw [onKey_ctrl hk h.extended, Keys.chars, if_pos hm, Keys.Careful, hl]
    refine iff_of_true ⟨⟨?_, ?_, h.extended⟩, rfl⟩ (by simp)
    · rw [Keys.shift_press, h.shift]
      rcases hk with rfl | rfl <;> rfl
    · rw [Keys.ctrl_press]
      simp [hk]
  · rw [onKey_caps, Keys.chars, if_pos (show Keys.modifier .caps = true from rfl), if_neg Bool.false_ne_true]
    refine iff_of_true ⟨⟨?_, ?_, h.extended⟩, rfl⟩ fun hl => absurd hl.1 (by decide)
    · rw [Keys.shift_press]
      exact h.shift
    · rw [Keys.ctrl_press]
      exact h.ctrl
  · have hm := hk
    simp only [Keys.modifier, Bool.or_eq_false_iff, decide_eq_false_iff_not] at hm
    obtain ⟨⟨⟨⟨h₁, h₂⟩, h₃⟩, h₄⟩, h₅⟩ := hm
    have hshow : s.Shows (r.step (.press k)) := by
      refine ⟨?_, ?_, h.extended⟩
      · rw [Keys.shift_press, h.shift]
        simp [h₁, h₂]
      · rw [Keys.ctrl_press, h.ctrl]
        simp [h₃, h₄]
    rw [onKey_other hk h.extended, Keys.chars, if_neg Bool.false_ne_true, and_iff_right hshow, hk,
      if_neg Bool.false_ne_true]
    cases hp : k.prefixed with
    | true => exact iff_of_true rfl (by simp [Keys.Careful, Key.letter, hp])
    | false => exact typed_iff h hc hp

lemma onKey_release (hs : s.extended = false) (k : Key) : s.onKey k true =
    ({ s with
      shiftDown := s.shiftDown && !decide (k = .lshift ∨ k = .rshift)
      ctrlDown := s.ctrlDown && !decide (k = .lctrl ∨ k = .rctrl) }, []) := by
  rcases modifier_cases k with hk | hk | rfl | hk
  · have hne : ¬ (k = .lctrl ∨ k = .rctrl) := by rcases hk with rfl | rfl <;> decide
    rw [onKey_shift hk, decide_eq_true hk, decide_eq_false hne]
    simp
  · have hne : ¬ (k = .lshift ∨ k = .rshift) := by rcases hk with rfl | rfl <;> decide
    rw [onKey_ctrl hk hs, decide_eq_true hk, decide_eq_false hne]
    simp
  · rw [onKey_caps, if_pos rfl, decide_eq_false (by decide), decide_eq_false (by decide)]
    simp
  · rw [onKey_other hk hs]
    simp only [Keys.modifier, Bool.or_eq_false_iff, decide_eq_false_iff_not] at hk
    obtain ⟨⟨⟨⟨h₁, h₂⟩, h₃⟩, h₄⟩, -⟩ := hk
    simp [h₁, h₂, h₃, h₄]

lemma pair_release {p q : Prop} [Decidable p] [Decidable q] {a b : Bool} (hpq : ¬ (p ∧ q)) :
    ((a || b) && !decide (p ∨ q)) = (decide ¬p && a || decide ¬q && b) ↔ (p → b = false) ∧ (q → a = false) := by
  by_cases hp : p <;> by_cases hq : q
  · exact absurd ⟨hp, hq⟩ hpq
  all_goals cases a <;> cases b <;> simp [hp, hq]

lemma release_conforms_iff (h : s.Shows r) : s.Conforms r (.release k) ↔ r.Careful (.release k) := by
  have hshift : (s.shiftDown && !decide (k = .lshift ∨ k = .rshift)) = (r.step (.release k)).shift ↔
      (k = .lshift → r.held .rshift = false) ∧ (k = .rshift → r.held .lshift = false) := by
    rw [h.shift, Keys.shift_release, Keys.shift]
    apply pair_release
    rintro ⟨rfl, h⟩
    cases h
  have hctrl : (s.ctrlDown && !decide (k = .lctrl ∨ k = .rctrl)) = (r.step (.release k)).ctrl ↔
      (k = .lctrl → r.held .rctrl = false) ∧ (k = .rctrl → r.held .lctrl = false) := by
    rw [h.ctrl, Keys.ctrl_release, Keys.ctrl]
    apply pair_release
    rintro ⟨rfl, h⟩
    cases h
  rw [Conforms, feed_release h.extended, onKey_release h.extended, Keys.Careful, ← and_assoc, ← hshift, ← hctrl]
  constructor
  · rintro ⟨hs, -⟩
    exact ⟨hs.shift, hs.ctrl⟩
  · rintro ⟨h₁, h₂⟩
    exact ⟨⟨h₁, h₂, h.extended⟩, rfl⟩

lemma conforms_iff (h : s.Shows r) (hc : s.capsLock = r.capsLock) (e : KeyEvent) :
    s.Conforms r e ↔ r.Careful e := by
  cases e with
  | press k => exact press_conforms_iff h hc
  | release k => exact release_conforms_iff h

lemma capsLock_event (hs : s.extended = false) (hc : s.capsLock = r.capsLock) (e : KeyEvent) :
    (s.feed e.bytes).1.capsLock = (r.step e).capsLock := by
  cases e with
  | press k =>
    rw [feed_press hs]
    rcases modifier_cases k with hk | hk | rfl | hk
    · rw [onKey_shift hk]
      rcases hk with rfl | rfl <;> exact hc
    · rw [onKey_ctrl hk hs]
      rcases hk with rfl | rfl <;> exact hc
    · rw [onKey_caps, if_neg Bool.false_ne_true]
      exact congrArg not hc
    · have hne : k ≠ .caps := by
        rintro rfl
        cases hk
      rw [onKey_other hk hs, Keys.step, if_neg hne]
      exact hc
  | release k =>
    rw [feed_release hs]
    rcases modifier_cases k with hk | hk | rfl | hk
    · rw [onKey_shift hk]
      exact hc
    · rw [onKey_ctrl hk hs]
      exact hc
    · exact hc
    · rw [onKey_other hk hs]
      exact hc

def after (events : List KeyEvent) : Keyboard := (start.feed (events.flatMap KeyEvent.bytes)).1

def keysAfter (events : List KeyEvent) : Keys := events.foldl Keys.step .start

lemma feed_append (s : Keyboard) (l m : List UInt8) : (s.feed (l ++ m)).1 = ((s.feed l).1.feed m).1 := by
  induction l generalizing s with
  | nil => rfl
  | cons b l ih => exact ih _

lemma after_concat (events : List KeyEvent) (e : KeyEvent) :
    after (events ++ [e]) = ((after events).feed e.bytes).1 := by
  rw [after, List.flatMap_append, feed_append]
  simp [after]

lemma keysAfter_concat (events : List KeyEvent) (e : KeyEvent) :
    keysAfter (events ++ [e]) = (keysAfter events).step e := by simp [keysAfter]

lemma shows_start : start.Shows .start := ⟨rfl, rfl, rfl⟩

lemma shows_after (events : List KeyEvent)
    (h : ∀ before e, before ++ [e] <+: events → (after before).Conforms (keysAfter before) e) :
    (after events).Shows (keysAfter events) ∧ (after events).capsLock = (keysAfter events).capsLock := by
  induction events using List.reverseRecOn with
  | nil => exact ⟨shows_start, rfl⟩
  | append_singleton events e ih =>
    obtain ⟨hs, hc⟩ := ih fun before e' hp => h before e' (hp.trans (List.prefix_append _ _))
    rw [after_concat, keysAfter_concat]
    exact ⟨(h events e (List.prefix_refl _)).1, capsLock_event hs.extended hc e⟩

theorem run_conforms_iff (events : List KeyEvent) :
    (∀ before e, before ++ [e] <+: events → (after before).Conforms (keysAfter before) e) ↔
      ∀ before e, before ++ [e] <+: events → (keysAfter before).Careful e := by
  constructor
  · intro h before e hp
    obtain ⟨hs, hc⟩ := shows_after before fun b e' hb => h b e' (hb.trans ((List.prefix_append _ _).trans hp))
    exact (conforms_iff hs hc e).1 (h before e hp)
  · intro h before
    induction hn : before.length using Nat.strong_induction_on generalizing before with
    | h n ih =>
      intro e hp
      obtain ⟨hs, hc⟩ := shows_after before fun b e' hb => by
        have hlen := hb.length_le
        rw [List.length_append, List.length_singleton] at hlen
        exact ih b.length (by omega) b rfl e' (hb.trans ((List.prefix_append _ _).trans hp))
      exact (conforms_iff hs hc e).2 (h before e hp)

theorem not_run_conforms : ¬ ∀ events before e, before ++ [e] <+: events →
    (after before).Conforms (keysAfter before) e := by
  intro h
  have hs := (h [.press .lshift, .press .rshift, .release .lshift] [.press .lshift, .press .rshift] (.release .lshift)
    (List.prefix_refl _)).1.shift
  revert hs
  decide

end Keyboard

end MyOS.Drivers
