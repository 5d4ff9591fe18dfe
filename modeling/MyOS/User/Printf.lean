import MyOS.Library.Printer
import Mathlib.Data.Nat.Digits.Lemmas

/-! Formatted output: `__format` of the C library and `format_core` of the kernel, and the sinks for it. -/

namespace MyOS.User

open Library Printer

/-- What is behind a format: the words of a `va_list`, and the bytes of the string at an address, up to the first zero. -/
structure VaList where
  word : ℕ → UInt64
  chars : UInt64 → List UInt8

def VaList.int (a : VaList) (i : ℕ) : Int32 := (a.word i).toUInt32.toInt32

def VaList.signed (a : VaList) (isLong : Bool) (i : ℕ) : Int64 :=
  if isLong then (a.word i).toInt64 else (a.int i).toInt64

def VaList.unsigned (a : VaList) (isLong : Bool) (i : ℕ) : UInt64 :=
  if isLong then a.word i else (a.word i).toUInt32.toUInt64

def VaList.str (a : VaList) (i : ℕ) : List UInt8 :=
  if a.word i = 0 then [40, 110, 117, 108, 108, 41] else a.chars (a.word i)

def magnitude (v : Int64) : UInt64 := if v < 0 then 0 - v.toUInt64 else v.toUInt64

def isDigit (c : UInt8) : Bool := 48 ≤ c && c ≤ 57

/-! The C library; the characters of a format are those before the terminator. -/

structure Spec where
  left : Bool := false
  zero : Bool := false
  plus : Bool := false
  space : Bool := false
  width : Int32 := 0
  prec : Int32 := -1

def flags : List UInt8 → Spec → List UInt8 × Spec
  | [], sp => ([], sp)
  | c :: fmt, sp =>
    if c = 45 then flags fmt { sp with left := true }
    else if c = 48 then flags fmt { sp with zero := true }
    else if c = 43 then flags fmt { sp with plus := true }
    else if c = 32 then flags fmt { sp with space := true }
    else (c :: fmt, sp)

def number : List UInt8 → Int32 → List UInt8 × Int32
  | [], n => ([], n)
  | c :: fmt, n => if isDigit c then number fmt (n * 10 + Int32.ofNat (c.toNat - 48)) else (c :: fmt, n)

def lengthModifiers : List UInt8 → Bool → List UInt8 × Bool
  | [], isLong => ([], isLong)
  | c :: fmt, isLong => if c = 108 ∨ c = 122 ∨ c = 106 ∨ c = 116 then lengthModifiers fmt true else (c :: fmt, isLong)

structure Directive where
  fmt : List UInt8
  ap : ℕ
  sp : Spec
  isLong : Bool

def width (a : VaList) (fmt : List UInt8) (ap : ℕ) (sp : Spec) : Directive :=
  if fmt.head? = some 42 then
    let sp := { sp with width := a.int ap }
    ⟨fmt.tail, ap + 1, if sp.width < 0 then { sp with left := true, width := -sp.width } else sp, false⟩
  else ⟨(number fmt sp.width).1, ap, { sp with width := (number fmt sp.width).2 }, false⟩

def precision (a : VaList) (d : Directive) : Directive :=
  if d.fmt.head? = some 46 then
    if d.fmt.tail.head? = some 42 then ⟨d.fmt.tail.tail, d.ap + 1, { d.sp with prec := a.int d.ap }, false⟩
    else ⟨(number d.fmt.tail 0).1, d.ap, { d.sp with prec := (number d.fmt.tail 0).2 }, false⟩
  else d

def directive (a : VaList) (fmt : List UInt8) (ap : ℕ) : Directive :=
  let (fmt, sp) := flags fmt {}
  let d := precision a (width a fmt ap sp)
  let (fmt, isLong) := lengthModifiers d.fmt false
  { d with fmt := fmt, isLong := isLong }

def emitNumber (_v : UInt64) (_neg : Bool) (_base : ℕ) (_upper : Bool) (_sp : Spec) : Printer := put 63

def padInt (c : UInt8) (n : Int32) : Printer := pad c n.toInt.toNat

def padded (sp : Spec) (padn : Int32) (p : Printer) : Printer :=
  (if sp.left then skip else padInt 32 padn).andThen (p.andThen (if sp.left then padInt 32 padn else skip))

def formatString (sp : Spec) (s : List UInt8) : Printer :=
  let len : Int32 := Int32.ofNat (if sp.prec ≥ 0 then min s.length sp.prec.toInt.toNat else s.length)
  padded sp (if sp.width > len then sp.width - len else 0) (puts (s.take len.toInt.toNat))

def formatChar (sp : Spec) (c : UInt8) : Printer := padded sp (if sp.width > 1 then sp.width - 1 else 0) (put c)

def putTwo (c c' : UInt8) : Printer := fun _ emit (s, count) => (emit c' (emit c s), count + 2)

def baseOf (c : UInt8) : ℕ := if c = 117 then 10 else if c = 111 then 8 else 16

def conversion (a : VaList) (d : Directive) (c : UInt8) : Printer × ℕ :=
  if c = 100 ∨ c = 105 then
    let v := a.signed d.isLong d.ap
    (emitNumber (magnitude v) (decide (v < 0)) 10 false d.sp, d.ap + 1)
  else if c = 117 ∨ c = 120 ∨ c = 88 ∨ c = 111 then
    (emitNumber (a.unsigned d.isLong d.ap) false (baseOf c) (c == 88) { d.sp with plus := false, space := false }, d.ap + 1)
  else if c = 112 then ((putTwo 48 120).andThen (emitNumber (a.word d.ap) false 16 false {}), d.ap + 1)
  else if c = 115 then (formatString d.sp (a.str d.ap), d.ap + 1)
  else if c = 99 then (formatChar d.sp (a.word d.ap).toUInt8, d.ap + 1)
  else if c = 37 then (put 37, d.ap)
  else (putTwo 37 c, d.ap)

lemma length_flags (fmt : List UInt8) (sp : Spec) : (flags fmt sp).1.length ≤ fmt.length := by
  induction fmt generalizing sp with
  | nil => exact le_rfl
  | cons c fmt ih =>
    rw [flags]
    split_ifs
    all_goals first | exact (ih _).trans (Nat.le_succ _) | exact le_rfl

lemma length_number (fmt : List UInt8) (n : Int32) : (number fmt n).1.length ≤ fmt.length := by
  induction fmt generalizing n with
  | nil => exact le_rfl
  | cons c fmt ih =>
    rw [number]
    split_ifs
    · exact (ih _).trans (Nat.le_succ _)
    · exact le_rfl

lemma length_lengthModifiers (fmt : List UInt8) (b : Bool) : (lengthModifiers fmt b).1.length ≤ fmt.length := by
  induction fmt generalizing b with
  | nil => exact le_rfl
  | cons c fmt ih =>
    rw [lengthModifiers]
    split_ifs
    · exact (ih _).trans (Nat.le_succ _)
    · exact le_rfl

lemma length_width (a : VaList) (fmt : List UInt8) (ap : ℕ) (sp : Spec) : (width a fmt ap sp).fmt.length ≤ fmt.length := by
  rw [width]
  split_ifs
  · rw [List.length_tail]
    exact Nat.sub_le ..
  · exact length_number ..

lemma length_precision (a : VaList) (d : Directive) : (precision a d).fmt.length ≤ d.fmt.length := by
  rw [precision]
  split_ifs
  · rw [List.length_tail, List.length_tail]
    omega
  · have := length_number d.fmt.tail 0
    rw [List.length_tail] at this
    dsimp only
    omega
  · exact le_rfl

lemma length_directive (a : VaList) (fmt : List UInt8) (ap : ℕ) : (directive a fmt ap).fmt.length ≤ fmt.length := by
  rw [directive]
  exact (length_lengthModifiers _ _).trans ((length_precision _ _).trans ((length_width ..).trans (length_flags _ _)))

def format (a : VaList) (fmt : List UInt8) (ap : ℕ) : Printer :=
  match fmt with
  | [] => skip
  | c :: fmt =>
    if c ≠ 37 then (put c).andThen (format a fmt ap)
    else
      match _h : (directive a fmt ap).fmt with
      | [] => skip
      | c :: fmt' =>
        let (p, ap') := conversion a (directive a fmt ap) c
        p.andThen (format a fmt' ap')
termination_by fmt.length
decreasing_by
  · exact Nat.lt_succ_self _
  · have := length_directive a fmt ap
    rw [_h, List.length_cons] at this
    rw [List.length_cons]
    omega

lemma prints_padInt (c : UInt8) (n : Int32) : Prints (padInt c n) (List.replicate n.toInt.toNat c) := prints_pad c _

lemma prints_putTwo (c c' : UInt8) : Prints (putTwo c c') [c, c'] := fun _ _ _ _ => rfl

lemma prints_padded (sp : Spec) (n : Int32) {p : Printer} {out : List UInt8} (hp : Prints p out) :
    ∃ out, Prints (padded sp n p) out := by
  dsimp only [padded]
  exact ⟨_, (Prints.ite prints_skip (prints_padInt _ _)).andThen <| hp.andThen <| Prints.ite (prints_padInt _ _) prints_skip⟩

lemma prints_conversion (a : VaList) (d : Directive) (c : UInt8) : ∃ out, Prints (conversion a d c).1 out := by
  rw [conversion]
  split_ifs
  · exact ⟨_, prints_put 63⟩
  · exact ⟨_, prints_put 63⟩
  · exact ⟨_, (prints_putTwo 48 120).andThen (prints_put 63)⟩
  · exact prints_padded _ _ (prints_puts _)
  · exact prints_padded _ _ (prints_put _)
  · exact ⟨_, prints_put 37⟩
  · exact ⟨_, prints_putTwo 37 c⟩

lemma prints_format (a : VaList) (fmt : List UInt8) (ap : ℕ) : ∃ out, Prints (format a fmt ap) out := by
  fun_induction format a fmt ap with
  | case1 => exact ⟨[], prints_skip⟩
  | case2 ap c fmt hc ih =>
    obtain ⟨out, hout⟩ := ih
    exact ⟨_, (prints_put c).andThen hout⟩
  | case3 => exact ⟨[], prints_skip⟩
  | case4 ap c fmt hc c' fmt' h p ap' hconv ih =>
    obtain ⟨out, hout⟩ := ih
    obtain ⟨first, hfirst⟩ := prints_conversion a (directive a fmt ap) c'
    rw [hconv] at hfirst
    exact ⟨_, hfirst.andThen hout⟩

lemma format_text_cons (a : VaList) {c : UInt8} (hc : c ≠ 37) (fmt : List UInt8) (ap : ℕ) :
    (format a (c :: fmt) ap).text = c :: (format a fmt ap).text := by
  obtain ⟨out, hout⟩ := prints_format a fmt ap
  rw [format, if_pos hc, ((prints_put c).andThen hout).text_eq, hout.text_eq]
  rfl

lemma format_text_directive (a : VaList) {c : UInt8} {fmt l : List UInt8} {ap : ℕ}
    (h : (directive a fmt ap).fmt = c :: l) : (format a (37 :: fmt) ap).text =
      (conversion a (directive a fmt ap) c).1.text ++ (format a l (conversion a (directive a fmt ap) c).2).text := by
  obtain ⟨out, hout⟩ := prints_format a l (conversion a (directive a fmt ap) c).2
  obtain ⟨first, hfirst⟩ := prints_conversion a (directive a fmt ap) c
  rw [hfirst.text_eq, hout.text_eq, format, if_neg (not_not.2 rfl)]
  split
  · next hnil => exact absurd (hnil.symm.trans h) (List.cons_ne_nil _ _).symm
  · next c' fmt'' hcons =>
    obtain ⟨rfl, rfl⟩ := List.cons.inj (hcons.symm.trans h)
    exact (hfirst.andThen hout).text_eq

inductive Argument
  | word (v : UInt64)
  | str (s : List UInt8)

def VaList.of (args : List Argument) : VaList where
  word i :=
    match args[i]? with
    | some (.word v) => v
    | some (.str _) => UInt64.ofNat (i + 1)
    | none => 0
  chars p :=
    match args[p.toNat - 1]? with
    | some (.str s) => s
    | _ => []

def formatted (fmt : List UInt8) (args : List Argument) : List UInt8 := (format (.of args) fmt 0).text

/-- A number as the formats `%d`, `%ld`, `%u` and `%lu` ask for it. -/
def decimal (n : ℤ) : List UInt8 := (toString n).toList.map fun c => UInt8.ofNat c.toNat

lemma decimal_head (n : ℤ) : ∃ c l, (toString n).toList = c :: l ∧ (c = '-' ∨ c.isDigit = true) := by
  have hnat (m : ℕ) : ∃ c l, m.repr.toList = c :: l ∧ c.isDigit = true := by
    rw [Nat.toList_repr]
    obtain ⟨c, l, h⟩ := List.exists_cons_of_ne_nil (Nat.toDigits_ne_nil (n := m) (b := 10))
    exact ⟨c, l, h, Nat.isDigit_of_mem_toDigits (by decide) (by decide) (h ▸ List.mem_cons_self)⟩
  cases n with
  | ofNat m =>
    obtain ⟨c, l, h, hc⟩ := hnat m
    exact ⟨c, l, h, Or.inr hc⟩
  | negSucc m =>
    refine ⟨'-', (m + 1).repr.toList, ?_, Or.inl rfl⟩
    rw [Int.toString_eq_repr, Int.repr]
    simp

lemma decimal_append_ne (n : ℤ) (l l' : List UInt8) : decimal n ++ l ≠ 63 :: l' := by
  obtain ⟨c, t, h, hc⟩ := decimal_head n
  rw [decimal, h, List.map_cons, List.cons_append]
  intro he
  have hmark := (List.cons.inj he).1
  rcases hc with rfl | hc
  · cases hmark
  · have hd : 48 ≤ c.toNat ∧ c.toNat ≤ 57 := Char.isDigit_iff_toNat.1 hc
    have hn := congrArg UInt8.toNat hmark
    rw [UInt8.toNat_ofNat_of_lt' (show c.toNat < 256 by omega)] at hn
    have hn : c.toNat = 63 := hn
    omega

/-- `emit_number` is a stub: whatever the number is, a question mark is printed. -/
lemma formatted_long (n : ℕ) (c : UInt8) (hc : c ≠ 37) :
    formatted [37, 108, 100, c] [.word (UInt64.ofNat n)] = [63, c] := by
  rw [formatted, format_text_directive (c := 100) (l := [c]) _ rfl, format_text_cons _ hc, format]
  rfl

/-- `"%d"` -/
def intText (n : ℤ) : List UInt8 := formatted [37, 100] [.word ⟨BitVec.ofInt 64 n⟩]

def vsnprintf (mem : ℕ → UInt8) (size : ℕ) (fmt : List UInt8) (a : VaList) : (ℕ → UInt8) × Int32 :=
  (format a fmt 0).toBuffer mem size

def vfprintf {File : Type} (putByte : File → UInt8 → File × Option UInt8) (f : File) (fmt : List UInt8) (a : VaList) :
    File × Int32 :=
  format a fmt 0 File (fun c f => (putByte f c).1) (f, 0)

def dprintf (fmt : List UInt8) (a : VaList) : List (List UInt8) × Int32 := (format a fmt 0).toPieces 256

/-! The kernel -/

namespace Kernel

def digits (upper : Bool) (base v : ℕ) : List UInt8 :=
  (if v = 0 then [0] else Nat.digits base v).map fun d =>
    UInt8.ofNat (if d < 10 then 48 + d else if upper then 55 + d else 87 + d)

/-- `emit_number`; after a loop with `pad` there is nothing left for the ones behind it. -/
def emitNumber (value : UInt64) (negative : Bool) (base : ℕ) (upper : Bool) (width : Int32) (zeroPad left : Bool) : Printer :=
  let tmp := digits upper base value.toNat
  let total : Int32 := Int32.ofNat (tmp.length + if negative then 1 else 0)
  let padn : Int32 := if width > total then width - total else 0
  (if !left && !zeroPad then padInt 32 padn else skip).andThen <|
    (if negative then put 45 else skip).andThen <|
      (if !left && zeroPad then padInt 48 padn else skip).andThen <|
        (puts tmp.reverse).andThen (if left then padInt 32 padn else skip)

def skipSpec : List UInt8 → List UInt8
  | [] => []
  | c :: fmt => if c = 45 ∨ c = 46 ∨ isDigit c then skipSpec fmt else c :: fmt

def longs : List UInt8 → ℕ → List UInt8 × ℕ
  | [], n => ([], n)
  | c :: fmt, n => if c = 108 then longs fmt (n + 1) else (c :: fmt, n)

def directive (fmt : List UInt8) : List UInt8 × Bool :=
  let (fmt, longness) := longs (skipSpec fmt) 0
  if fmt.head? = some 122 then (fmt.tail, true) else (fmt, decide (1 ≤ longness))

def formatString (left : Bool) (width precision : Int32) (s : List UInt8) : Printer :=
  let len : Int32 := Int32.ofNat (if precision < 0 then s.length else min s.length precision.toInt.toNat)
  let padn : Int32 := if width > len then width - len else 0
  (if !left then padInt 32 padn else skip).andThen <|
    (puts (s.take len.toInt.toNat)).andThen (if left then padInt 32 padn else skip)

def conversion (a : VaList) (isLong : Bool) (ap : ℕ) (left zeroPad : Bool) (width precision : Int32) (c : UInt8) :
    Printer × ℕ :=
  if c = 100 ∨ c = 105 then
    let v := a.signed isLong ap
    ((emitNumber (magnitude v) (decide (v < 0)) 10 false width zeroPad left).apart, ap + 1)
  else if c = 117 ∨ c = 120 ∨ c = 88 then
    let v := a.unsigned isLong ap
    ((emitNumber v false (if c = 117 then 10 else 16) (c == 88) width zeroPad left).apart, ap + 1)
  else if c = 112 then
    ((putTwo 48 120).andThen (emitNumber (a.word ap) false 16 false 16 true false).apart, ap + 1)
  else if c = 115 then (formatString left width precision (a.str ap), ap + 1)
  else if c = 99 then (put (a.word ap).toUInt8, ap + 1)
  else if c = 37 then (put 37, ap)
  else (putTwo 37 c, ap)

lemma length_skipSpec (fmt : List UInt8) : (skipSpec fmt).length ≤ fmt.length := by
  induction fmt with
  | nil => exact le_rfl
  | cons c fmt ih =>
    rw [skipSpec]
    split_ifs
    · exact ih.trans (Nat.le_succ _)
    · exact le_rfl

lemma length_longs (fmt : List UInt8) (n : ℕ) : (longs fmt n).1.length ≤ fmt.length := by
  induction fmt generalizing n with
  | nil => exact le_rfl
  | cons c fmt ih =>
    rw [longs]
    split_ifs
    · exact (ih _).trans (Nat.le_succ _)
    · exact le_rfl

lemma length_directive (fmt : List UInt8) : (directive fmt).1.length ≤ fmt.length := by
  have h := (length_longs (skipSpec fmt) 0).trans (length_skipSpec fmt)
  dsimp only [directive]
  split_ifs
  · rw [List.length_tail]
    omega
  · exact h

def formatCore (a : VaList) (fmt : List UInt8) (ap : ℕ) : Printer :=
  match fmt with
  | [] => skip
  | c :: fmt =>
    if c ≠ 37 then (put c).andThen (formatCore a fmt ap)
    else
      match _h : (directive fmt).1 with
      | [] => skip
      | c :: fmt' =>
        let (p, ap') := conversion a (directive fmt).2 ap false false 0 (-1) c
        p.andThen (formatCore a fmt' ap')
termination_by fmt.length
decreasing_by
  · exact Nat.lt_succ_self _
  · have := length_directive fmt
    rw [_h, List.length_cons] at this
    rw [List.length_cons]
    omega

lemma prints_emitNumber (value : UInt64) (negative : Bool) (base : ℕ) (upper : Bool) (width : Int32) (zeroPad left : Bool) :
    ∃ out, Prints (emitNumber value negative base upper width zeroPad left) out := by
  dsimp only [emitNumber]
  exact ⟨_, (Prints.ite (prints_padInt _ _) prints_skip).andThen <| (Prints.ite (prints_put _) prints_skip).andThen <|
    (Prints.ite (prints_padInt _ _) prints_skip).andThen <| (prints_puts _).andThen <|
      Prints.ite (prints_padInt _ _) prints_skip⟩

lemma prints_conversion (a : VaList) (isLong : Bool) (ap : ℕ) (left zeroPad : Bool) (width precision : Int32) (c : UInt8) :
    ∃ out, Prints (conversion a isLong ap left zeroPad width precision c).1 out := by
  rw [conversion]
  split
  · obtain ⟨out, hout⟩ := prints_emitNumber (magnitude (a.signed isLong ap)) (decide (a.signed isLong ap < 0)) 10 false width zeroPad left
    exact ⟨out, hout.apart⟩
  split
  · obtain ⟨out, hout⟩ := prints_emitNumber (a.unsigned isLong ap) false (if c = 117 then 10 else 16) (c == 88) width zeroPad left
    exact ⟨out, hout.apart⟩
  split
  · obtain ⟨out, hout⟩ := prints_emitNumber (a.word ap) false 16 false 16 true false
    exact ⟨_, (prints_putTwo 48 120).andThen hout.apart⟩
  split
  · dsimp only [formatString]
    exact ⟨_, (Prints.ite (prints_padInt _ _) prints_skip).andThen <| (prints_puts _).andThen <|
      Prints.ite (prints_padInt _ _) prints_skip⟩
  split
  · exact ⟨_, prints_put _⟩
  split
  · exact ⟨_, prints_put 37⟩
  · exact ⟨_, prints_putTwo 37 c⟩

lemma prints_formatCore (a : VaList) (fmt : List UInt8) (ap : ℕ) : ∃ out, Prints (formatCore a fmt ap) out := by
  fun_induction formatCore a fmt ap with
  | case1 => exact ⟨[], prints_skip⟩
  | case2 ap c fmt hc ih =>
    obtain ⟨out, hout⟩ := ih
    exact ⟨_, (prints_put c).andThen hout⟩
  | case3 => exact ⟨[], prints_skip⟩
  | case4 ap c fmt hc c' fmt' h p ap' hconv ih =>
    obtain ⟨out, hout⟩ := ih
    obtain ⟨first, hfirst⟩ := prints_conversion a (directive fmt).2 ap false false 0 (-1) c'
    rw [hconv] at hfirst
    exact ⟨_, hfirst.andThen hout⟩

def kvsnprintf (mem : ℕ → UInt8) (size : ℕ) (fmt : List UInt8) (a : VaList) : (ℕ → UInt8) × Int32 :=
  (formatCore a fmt 0).toBuffer mem size

def kvprintf (fmt : List UInt8) (a : VaList) : List (List UInt8) × Int32 := (formatCore a fmt 0).toPieces 256

end Kernel

structure Bounded (out : List UInt8) (print : (ℕ → UInt8) → ℕ → (ℕ → UInt8) × Int32) : Prop where
  count : out.length < 2 ^ 31 → ∀ mem size, ((print mem size).2.toInt = out.length)
  inside : out.length < 2 ^ 64 → ∀ mem size i, size ≤ i → (print mem size).1 i = mem i
  kept : out.length < 2 ^ 64 → ∀ mem size, 0 < size → ∀ i < min out.length (size - 1), (print mem size).1 i = out.getD i 0
  terminated : out.length < 2 ^ 64 → ∀ mem size, 0 < size → (print mem size).1 (min out.length (size - 1)) = 0

lemma bounded {p : Printer} {out : List UInt8} (hp : Prints p out) : Bounded out p.toBuffer where
  count hlt mem size := by
    rw [hp.toBuffer_snd]
    exact Int32.toInt_ofNat_of_lt hlt
  inside hlt mem size := (hp.toBuffer mem size hlt).1
  kept hlt mem size hsize := ((hp.toBuffer mem size hlt).2 hsize).1
  terminated hlt mem size hsize := ((hp.toBuffer mem size hlt).2 hsize).2

theorem formatted_output (fmt : List UInt8) (a : VaList) :
    (Bounded (format a fmt 0).text (fun mem size => vsnprintf mem size fmt a) ∧
      (∀ (File : Type) (putByte : File → UInt8 → File × Option UInt8) (f : File), vfprintf putByte f fmt a =
        ((format a fmt 0).text.foldl (fun f c => (putByte f c).1) f, Int32.ofNat (format a fmt 0).text.length)) ∧
      (dprintf fmt a).1.flatten = (format a fmt 0).text ∧ (dprintf fmt a).2 = Int32.ofNat (format a fmt 0).text.length ∧
      ∀ mem size, (vsnprintf mem size fmt a).2 = Int32.ofNat (format a fmt 0).text.length) ∧
    (Bounded (Kernel.formatCore a fmt 0).text (fun mem size => Kernel.kvsnprintf mem size fmt a) ∧
      (Kernel.kvprintf fmt a).1.flatten = (Kernel.formatCore a fmt 0).text ∧
      (Kernel.kvprintf fmt a).2 = Int32.ofNat (Kernel.formatCore a fmt 0).text.length ∧
      ∀ mem size, (Kernel.kvsnprintf mem size fmt a).2 = Int32.ofNat (Kernel.formatCore a fmt 0).text.length) := by
  constructor
  · obtain ⟨out, hout⟩ := prints_format a fmt 0
    rw [hout.text_eq]
    refine ⟨bounded hout, ?_, (hout.toPieces (by decide)).1, (hout.toPieces (by decide)).2, hout.toBuffer_snd⟩
    intro File putByte f
    rw [vfprintf, hout, Int32.zero_add]
  · obtain ⟨out, hout⟩ := Kernel.prints_formatCore a fmt 0
    rw [hout.text_eq]
    exact ⟨bounded hout, (hout.toPieces (by decide)).1, (hout.toPieces (by decide)).2, hout.toBuffer_snd⟩

theorem formatted_output_letter :
    (Kernel.kvsnprintf (fun _ => 7) 2 [37, 99, 37, 37] ⟨fun _ => 97, fun _ => []⟩).2.toInt = 2 ∧
      (Kernel.kvsnprintf (fun _ => 7) 2 [37, 99, 37, 37] ⟨fun _ => 97, fun _ => []⟩).1 0 = 97 := by
  have htext : (Kernel.formatCore ⟨fun _ => 97, fun _ => []⟩ [37, 99, 37, 37] 0).text = [97, 37] := by
    have hend : Kernel.formatCore ⟨fun _ => 97, fun _ => []⟩ [] 1 = skip := by rw [Kernel.formatCore]
    have hpercent : Kernel.formatCore ⟨fun _ => 97, fun _ => []⟩ [37, 37] 1 = (put 37).andThen skip := by
      rw [Kernel.formatCore]
      exact congrArg (Printer.andThen (put 37)) hend
    rw [Kernel.formatCore]
    exact congrArg (fun p => (Printer.andThen (put 97) p).text) hpercent
  obtain ⟨-, hbounded, -⟩ := formatted_output [37, 99, 37, 37] ⟨fun _ => 97, fun _ => []⟩
  rw [htext] at hbounded
  exact ⟨hbounded.count (by decide) _ 2, hbounded.kept (by decide) _ 2 (by decide) 0 (by decide)⟩

end MyOS.User
