import MyOS.User.Shell.EditLine

/-! `edit_line` against an editor of a text with a cursor in it. -/

namespace MyOS.User.Shell

open Library Library.Buffer

/-- The text before the cursor and behind it, the place in the history, the new line while another one is shown,
and whether the line is to be given up. -/
structure Edited where
  before : List UInt8
  after : List UInt8
  place : ℕ
  draft : List UInt8
  sigint : Bool

inductive Command
  | insert (c : UInt8)
  | backspace
  | delete
  | left
  | right
  | toStart
  | toEnd
  | killToStart
  | killToEnd
  | killWord
  | complete
  | older
  | newer
  | nothing

def lastWord (t : List UInt8) : List UInt8 := t.rtakeWhile fun c => !strchr breaks c

def isFirstWord (t : List UInt8) : Bool :=
  match ((t.rdropWhile fun c => !strchr breaks c).rdropWhile (· == 32)).getLast? with
  | none => true
  | some c => strchr pipeline c

/-- What all of these go on with behind `plen` bytes; a single one that is no directory ends with a space. -/
def common (plen : ℕ) (names : List (List UInt8)) : List UInt8 :=
  let add := (longestCommonPrefix names).drop plen
  if names.length = 1 ∧ add.getLast? ≠ some slash then add ++ [32] else add

def completion (t : List UInt8) (directories : Directories) : List UInt8 :=
  common (part (lastWord t)).length (candidates (isFirstWord t) (lastWord t) directories)

namespace Edited

variable (size : ℕ) (history : List Str)

def text (e : Edited) : List UInt8 := e.before ++ e.after

def lineAt (e : Edited) (place : ℕ) : List UInt8 := ((history[place]?).map Str.bytes).getD e.draft

def goTo (e : Edited) (place : ℕ) : Edited :=
  let e := if e.place = history.length then { e with draft := e.text } else e
  { e with before := (e.lineAt history place).take (size - 1), after := [], place := place }

def apply (directories : Directories) (e : Edited) : Command → Edited
  | .insert c => if e.text.length < size - 1 then { e with before := e.before ++ [c] } else e
  | .backspace => { e with before := e.before.dropLast }
  | .delete => { e with after := e.after.tail }
  | .left => { e with before := e.before.dropLast, after := e.before.getLast?.toList ++ e.after }
  | .right => { e with before := e.before ++ e.after.head?.toList, after := e.after.tail }
  | .toStart => { e with before := [], after := e.text }
  | .toEnd => { e with before := e.text, after := [] }
  | .killToStart => { e with before := [] }
  | .killToEnd => { e with after := [] }
  | .killWord => { e with before := (e.before.rdropWhile (· == 32)).rdropWhile (· != 32) }
  | .complete =>
    let add := completion e.before directories
    if e.text.length + add.length < size - 1 then { e with before := e.before ++ add } else e
  | .older => if 0 < e.place then e.goTo size history (e.place - 1) else e
  | .newer => if e.place < history.length then e.goTo size history (e.place + 1) else e
  | .nothing => e

def signalled (e : Edited) (sigint : Bool) : Edited := { e with sigint := e.sigint || sigint }

end Edited

def byteCommand (c : UInt8) : Command :=
  if c = 1 then .toStart
  else if c = 4 then .delete
  else if c = 5 then .toEnd
  else if c = 8 ∨ c = 127 then .backspace
  else if c = 9 then .complete
  else if c = 11 then .killToEnd
  else if c = 21 then .killToStart
  else if c = 23 then .killWord
  else if 32 ≤ c then .insert c
  else .nothing

def digitCommand (c : UInt8) : Command :=
  if c = 49 ∨ c = 55 then .toStart else if c = 51 then .delete else if c = 52 ∨ c = 56 then .toEnd else .nothing

def letterCommand (c : UInt8) : Command :=
  if c = 65 then .older
  else if c = 66 then .newer
  else if c = 67 then .right
  else if c = 68 then .left
  else if c = 70 then .toEnd
  else if c = 72 then .toStart
  else .nothing

def escapeCommand (gs : List Input) : Command × Bool × List Input :=
  match readByte gs with
  | (none, b, gs) => (.nothing, b, gs)
  | (some s1, b, gs) => match readByte gs with
    | (none, b', gs) => (.nothing, b || b', gs)
    | (some s2, b', gs) =>
      if s1 = 91 ∨ s1 = 79 then
        if 48 ≤ s2 ∧ s2 ≤ 57 then match readByte gs with
          | (none, b'', gs) => (.nothing, b || b' || b'', gs)
          | (some _, b'', gs) => (digitCommand s2, b || b' || b'', gs)
        else (letterCommand s2, b || b', gs)
      else (.nothing, b || b', gs)

namespace Edited

variable (size : ℕ) (history : List Str)

/-- One key, in an editor that ends with the return key, with Ctrl-D on an empty line, and with the input. -/
def turn (e : Edited) : List Input → Turn Edited
  | [] => .returns (if e.sigint then -2 else -1) e
  | i :: gs =>
    let e := e.signalled i.sigint
    match i.got with
    | .interrupted => .returns (-2) e
    | .failed => .returns (if e.sigint then -2 else -1) e
    | .byte c =>
      if e.sigint then .returns (-2) e
      else if c = 10 ∨ c = 13 then .returns e.text.length e
      else if c = 4 ∧ e.text = [] then .returns (-1) e
      else if c = 27 then
        let (command, sigint, gs) := escapeCommand gs
        .again ((e.apply size history i.directories command).signalled sigint) gs
      else .again (e.apply size history i.directories (byteCommand c)) gs

def turns (e : Edited) (gs : List Input) : ℕ → Turn Edited
  | 0 => .again e gs
  | n + 1 => match turns e gs n with
    | .again e gs => e.turn size history gs
    | t => t

def start : Edited where
  before := []
  after := []
  place := history.length
  draft := []
  sigint := false

end Edited

structure Holds (size : ℕ) (buf : List UInt8) (len pos : ℕ) (l r : List UInt8) : Prop where
  length : buf.length = size
  len_lt : len ≤ size - 1
  pos_le : pos ≤ len
  before : buf.take pos = l
  text : buf.take len = l ++ r
  noNul : 0 ∉ l ++ r

structure Shows (size : ℕ) (history : List Str) (s : Line) (e : Edited) : Prop where
  holds : Holds size s.buf s.len s.pos e.before e.after
  hist : s.hist = e.place
  place_le : e.place ≤ history.length
  length_saved : s.saved.length = lineMax
  saved : ∃ h, Str.ofArray s.saved = some h ∧ h.bytes = e.draft
  draft : e.draft.length ≤ size - 1
  sigint : s.gotSigint = e.sigint

inductive SameTurn (size : ℕ) (history : List Str) : Turn Line → Turn Edited → Prop
  | again {s : Line} {e : Edited} (h : Shows size history s e) (gs : List Input) :
    SameTurn size history (.again s gs) (.again e gs)
  | returns {s : Line} {e : Edited} (h : Shows size history s e) (result : ℤ) :
    SameTurn size history (.returns result s) (.returns result e)

namespace Holds

variable {size len pos : ℕ} {b l r g w : List UInt8}

lemma of_append (hb : b = l ++ r ++ g) (hsize : b.length = size) (hg : 0 < g.length) (hpos : pos = l.length)
    (hlen : len = l.length + r.length) (hn : 0 ∉ l ++ r) : Holds size b len pos l r := by
  have hall : b.length = l.length + r.length + g.length := by
    rw [hb, List.length_append, List.length_append]
  refine ⟨hsize, by omega, by omega, ?_, ?_, hn⟩
  · rw [hb, hpos, List.append_assoc, List.take_left]
  · rw [hb, hlen, ← List.length_append, List.take_left]

lemma parts (h : Holds size b len pos l r) (hsize : 0 < size) :
    ∃ g, b = l ++ r ++ g ∧ 0 < g.length ∧ pos = l.length ∧ len = l.length + r.length := by
  have hlen := h.len_lt
  have hpos := h.pos_le
  have hfit : b.length = size := h.length
  have hl := congrArg List.length h.before
  have ht := congrArg List.length h.text
  rw [List.length_take] at hl ht
  rw [List.length_append] at ht
  refine ⟨b.drop len, ?_, ?_, by omega, by omega⟩
  · rw [← h.text, List.take_append_drop]
  · rw [List.length_drop]
    omega

lemma length_text (h : Holds size b len pos l r) : len = (l ++ r).length := by
  have hlen := h.len_lt
  have hfit : b.length = size := h.length
  rw [← h.text, List.length_take]
  omega

end Holds

def Edits (size : ℕ) (s : Line) (op : Option Line) (l r : List UInt8) : Prop :=
  ∃ b len pos, op = some { s with buf := b, len := len, pos := pos } ∧ Holds size b len pos l r

section Edits

variable {size : ℕ} {s : Line} {l r w : List UInt8} {c : UInt8} {history : List Str} {e : Edited}

lemma Shows.edits {op : Option Line} (h : Shows size history s e) (he : Edits size s op l r) :
    ∃ s', op = some s' ∧ Shows size history s' { e with before := l, after := r } := by
  obtain ⟨b, len, pos, hop, hh⟩ := he
  exact ⟨_, hop, hh, h.hist, h.place_le, h.length_saved, h.saved, h.draft, h.sigint⟩

lemma Edits.cursor {m : List UInt8} {len pos : ℕ} (hs : 0 < size) (h : Holds size s.buf s.len s.pos l r)
    (htext : l ++ r = w ++ m) (hlen : len = s.len) (hpos : pos = w.length) :
    Edits size s (some { s with len := len, pos := pos }) w m := by
  obtain ⟨g, hb, hg, -, hl⟩ := h.parts hs
  refine ⟨s.buf, len, pos, rfl, Holds.of_append (g := g) ?_ h.length hg hpos ?_ ?_⟩
  · rw [hb, htext]
  · rw [hlen, hl, ← List.length_append, htext, List.length_append]
  · rw [← htext]
    exact h.noNul

variable (hs : 0 < size) (hmax : size ≤ lineMax)
include hs hmax

omit hs in
lemma size_lt : size < 2 ^ 64 := lt_of_le_of_lt hmax (by decide)

lemma Edits.cut {len pos : ℕ} (h : Holds size s.buf s.len s.pos (l ++ w) r)
    (hlen : len = s.len - w.length) (hpos : pos = l.length) :
    Edits size s ((move s.buf l.length s.pos (sub64 s.len s.pos)).map fun b =>
      { s with buf := b, len := len, pos := pos }) l r := by
  obtain ⟨g, hb, hg, hp, hl⟩ := h.parts hs
  have hlt := size_lt hmax
  have hle := h.len_lt
  have hlong : (l ++ w).length = l.length + w.length := List.length_append
  have hsub : sub64 s.len s.pos = r.length := by
    rw [sub64_of_le (by omega) (by omega)]
    omega
  obtain ⟨g', hg', hmove⟩ := close_gap (l := l) (w := w) (r := r) (g := g)
  refine ⟨l ++ r ++ g', len, pos, ?_, Holds.of_append rfl ?_ ?_ hpos ?_ ?_⟩
  · rw [hsub, hb, hp, hlong, hmove]
    rfl
  · rw [← h.length, hb]
    simp only [List.length_append]
    omega
  · omega
  · omega
  · have := h.noNul
    simp only [List.mem_append, not_or] at this ⊢
    exact ⟨this.1.1, this.2⟩

lemma deleteAt_edits (h : Holds size s.buf s.len s.pos l (c :: r)) : Edits size s (s.deleteAt s.pos) l r := by
  obtain ⟨g, hb, hg, hp, hl⟩ := h.parts hs
  have hlt := size_lt hmax
  have hle := h.len_lt
  rw [List.length_cons] at hl
  have hsub : sub64 (sub64 s.len s.pos) 1 = r.length := by
    rw [sub64_of_le (a := s.len) (by omega) (by omega), sub64_of_le (by omega) (by omega)]
    omega
  have hone : sub64 s.len 1 = l.length + r.length := by
    rw [sub64_of_le (by omega) (by omega)]
    omega
  obtain ⟨g', hg', hmove⟩ := close_gap (l := l) (w := [c]) (r := r) (g := g)
  have hb' : s.buf = l ++ [c] ++ r ++ g := by rw [hb, List.append_assoc l [c] r, List.singleton_append]
  refine ⟨l ++ r ++ g', sub64 s.len 1, s.pos, ?_, Holds.of_append rfl ?_ ?_ hp hone ?_⟩
  · rw [Line.deleteAt, hsub, hb', hp, ← List.length_singleton (a := c), hmove]
    rfl
  · rw [← h.length, hb']
    simp only [List.length_append]
    omega
  · omega
  · have := h.noNul
    simp only [List.mem_append, List.mem_cons, not_or] at this ⊢
    exact ⟨this.1, this.2.2⟩

lemma deleteHere_edits (h : Holds size s.buf s.len s.pos l r) : Edits size s s.deleteHere l r.tail := by
  obtain ⟨g, hb, hg, hp, hl⟩ := h.parts hs
  cases r with
  | nil =>
    rw [List.length_nil] at hl
    rw [Line.deleteHere, if_neg (by omega)]
    exact ⟨s.buf, s.len, s.pos, rfl, h⟩
  | cons c r =>
    rw [List.length_cons] at hl
    rw [Line.deleteHere, if_pos (by omega)]
    exact deleteAt_edits hs hmax h

lemma backspace_edits (h : Holds size s.buf s.len s.pos l r) : Edits size s s.backspace l.dropLast r := by
  obtain ⟨g, hb, hg, hp, hl⟩ := h.parts hs
  rcases List.eq_nil_or_concat' l with rfl | ⟨l, c, rfl⟩
  · rw [List.length_nil] at hp
    rw [Line.backspace, if_neg (by omega)]
    exact ⟨s.buf, s.len, s.pos, rfl, h⟩
  · rw [List.length_append, List.length_singleton] at hp
    rw [Line.backspace, if_pos (by omega), List.dropLast_concat]
    have hcursor : Edits size s (some { s with len := s.len, pos := s.pos - 1 }) l (c :: r) :=
      Edits.cursor hs h (by rw [List.append_assoc, List.singleton_append]) rfl (by omega)
    obtain ⟨b, len, pos, hc, hh⟩ := hcursor
    obtain ⟨rfl, rfl, rfl⟩ : b = s.buf ∧ len = s.len ∧ pos = s.pos - 1 := by
      simp only [Option.some.injEq, Line.mk.injEq] at hc
      tauto
    obtain ⟨b, len, pos, hd, hh⟩ := deleteAt_edits (s := { s with pos := s.pos - 1 }) hs hmax hh
    exact ⟨b, len, pos, hd, hh⟩

lemma killToStart_edits (h : Holds size s.buf s.len s.pos l r) : Edits size s s.killToStart [] r := by
  obtain ⟨g, hb, hg, hp, hl⟩ := h.parts hs
  have hlt := size_lt hmax
  have hle := h.len_lt
  have hsub : sub64 s.len s.pos = s.len - l.length := by
    rw [sub64_of_le (by omega) (by omega)]
    omega
  exact Edits.cut (l := []) (w := l) hs hmax h hsub rfl

omit hmax in
lemma killToEnd_edits (h : Holds size s.buf s.len s.pos l r) : Edits size s (some s.killToEnd) l [] := by
  obtain ⟨g, hb, hg, hp, hl⟩ := h.parts hs
  refine ⟨s.buf, s.pos, s.pos, rfl, Holds.of_append (g := r ++ g) ?_ h.length ?_ hp ?_ ?_⟩
  · rw [hb, List.append_nil, List.append_assoc]
  · rw [List.length_append]
    omega
  · rw [hp, List.length_nil, Nat.add_zero]
  · have := h.noNul
    simp only [List.mem_append, not_or] at this
    rw [List.append_nil]
    exact this.1

lemma killWord_edits (h : Holds size s.buf s.len s.pos l r) :
    Edits size s s.killWord ((l.rdropWhile (· == 32)).rdropWhile (· != 32)) r := by
  obtain ⟨g, hb, hg, hp, hl⟩ := h.parts hs
  have hlt := size_lt hmax
  have hle := h.len_lt
  obtain ⟨y, hy⟩ := List.rdropWhile_prefix (p := (· == 32)) l
  obtain ⟨x, hx⟩ := List.rdropWhile_prefix (p := (· != 32)) (l.rdropWhile (· == 32))
  generalize hm : (l.rdropWhile (· == 32)) = m at hx hy
  generalize hk : m.rdropWhile (· != 32) = k at hx
  have hspaces : backWhile (· == 32) s.buf s.pos = some m.length := by
    rw [hb, hp, List.append_assoc, backWhile_eq, hm]
  have hword : backWhile (· != 32) s.buf m.length = some k.length := by
    rw [hb, ← hy, List.append_assoc, List.append_assoc, backWhile_eq, hk]
  have hkl : l = k ++ (x ++ y) := by rw [← hy, ← hx, List.append_assoc]
  have hlong := congrArg List.length hkl
  rw [List.length_append] at hlong
  have hsub : sub64 s.len (sub64 s.pos k.length) = s.len - (x ++ y).length := by
    rw [sub64_of_le (a := s.pos) (by omega) (by omega), sub64_of_le (by omega) (by omega)]
    omega
  rw [Line.killWord, hspaces, Option.bind_some, hword, Option.bind_some]
  rw [hkl] at h
  exact Edits.cut hs hmax h hsub rfl

lemma insert_edits {g : List UInt8} (hb : s.buf = l ++ r ++ g) (h : Holds size s.buf s.len s.pos l r)
    (hw : w.length < g.length) (hn : 0 ∉ w) :
    Edits size s ((move s.buf (s.pos + w.length) s.pos (sub64 s.len s.pos)).bind fun b =>
      (store b s.pos w).map fun b => { s with buf := b, len := s.len + w.length, pos := s.pos + w.length })
      (l ++ w) r := by
  obtain ⟨-, -, -, hp, hl⟩ := h.parts hs
  have hlt := size_lt hmax
  have hle := h.len_lt
  have hsub : sub64 s.len s.pos = r.length := by
    rw [sub64_of_le (by omega) (by omega)]
    omega
  obtain ⟨b, hblen, hmove, hstore⟩ := open_gap (l := l) (r := r) (g := g) (w := w) hw.le
  refine ⟨l ++ w ++ r ++ g.drop w.length, s.len + w.length, s.pos + w.length, ?_,
    Holds.of_append rfl ?_ ?_ ?_ ?_ ?_⟩
  · rw [hsub, hb, hp, hmove, Option.bind_some, hstore]
    rfl
  · rw [← h.length, hb]
    simp only [List.length_append, List.length_drop]
    omega
  · rw [List.length_drop]
    omega
  · rw [hp, List.length_append]
  · rw [hl, List.length_append]
    omega
  · have := h.noNul
    simp only [List.mem_append, not_or] at this ⊢
    exact ⟨⟨this.1, hn⟩, this.2⟩

lemma insertChar_edits (h : Holds size s.buf s.len s.pos l r) (hc : c ≠ 0) :
    Edits size s (s.insertChar size c) (if (l ++ r).length < size - 1 then l ++ [c] else l) r := by
  obtain ⟨g, hb, hg, hp, hl⟩ := h.parts hs
  have hlt := size_lt hmax
  have hlen := h.length_text
  have hall := congrArg List.length hb
  rw [h.length, List.length_append] at hall
  rw [Line.insertChar, sub64_of_le (by omega) hlt, ← hlen]
  split_ifs with hroom
  · refine insert_edits (w := [c]) hs hmax hb h ?_ ?_
    · rw [List.length_singleton]
      omega
    · rw [List.mem_singleton]
      exact hc.symm
  · exact ⟨s.buf, s.len, s.pos, rfl, h⟩

omit hs hmax in
lemma ofArray_eq {w : List UInt8} (hw : 0 ∉ w) (g : List UInt8) : Str.ofArray (w ++ 0 :: g) = some ⟨w, hw⟩ := by
  have hmem : 0 ∈ w ++ 0 :: g := List.mem_append_right _ List.mem_cons_self
  have hword : ∀ c ∈ w, decide (c ≠ 0) = true := fun c hc => decide_eq_true fun h => hw (h ▸ hc)
  have htake : (w ++ 0 :: g).takeWhile (· ≠ 0) = w := by
    rw [List.takeWhile_append_of_pos hword, List.takeWhile_cons_of_neg (by simp), List.append_nil]
  rw [Str.ofArray, if_pos hmem]
  exact congrArg some (Str.mk.injEq .. |>.mpr htake)

lemma keep_edits (h : Holds size s.buf s.len s.pos l r) (hsaved : s.saved.length = lineMax) :
    ∃ b saved, s.keep = some { s with buf := b, saved := saved } ∧ Holds size b s.len s.pos l r ∧
      saved.length = lineMax ∧ Str.ofArray saved = some ⟨l ++ r, h.noNul⟩ := by
  obtain ⟨g, hb, hg, hp, hl⟩ := h.parts hs
  have hle := h.len_lt
  have hlen := h.length_text
  have hbuf := store_eq (w := [0]) hb hg
  rw [← hlen, List.append_assoc, List.singleton_append] at hbuf
  have hroom : (l ++ r ++ [0]).length ≤ s.saved.length := by
    rw [List.length_append, List.length_singleton, ← hlen, hsaved]
    omega
  have hstore := store_eq (y := []) (g := s.saved) rfl hroom
  rw [List.nil_append, List.nil_append, List.length_nil] at hstore
  refine ⟨_, l ++ r ++ [0] ++ s.saved.drop (l ++ r ++ [0]).length, ?_, Holds.of_append (g := 0 :: g.drop 1) rfl ?_ (Nat.succ_pos _) hp hl h.noNul, ?_, ?_⟩
  · rw [Line.keep, hbuf, Option.bind_some, ofArray_eq h.noNul, Option.bind_some, hstore]
    rfl
  · rw [← h.length, ← length_store hbuf, List.length_singleton]
  · rw [← hsaved, ← length_store hstore]
  · rw [List.append_assoc, List.singleton_append, ofArray_eq h.noNul]

lemma rewrite_edits {h : Str} (hb : s.buf.length = size) :
    Edits size s ((store s.buf 0 (h.bytes.take (min h.bytes.length (sub64 size 1)))).map fun b =>
      { s with buf := b, len := min h.bytes.length (sub64 size 1), pos := min h.bytes.length (sub64 size 1) })
      (h.bytes.take (size - 1)) [] := by
  have hlt := size_lt hmax
  have htake : h.bytes.take (min h.bytes.length (size - 1)) = h.bytes.take (size - 1) := by
    rw [← List.take_take, List.take_of_length_le (i := h.bytes.length)]
    exact List.length_take_le' _ _
  have hlen : (h.bytes.take (size - 1)).length = min h.bytes.length (size - 1) := by
    rw [List.length_take, Nat.min_comm]
  rw [sub64_of_le (by omega) hlt, htake]
  have hstore := store_eq (y := []) (g := s.buf) (w := h.bytes.take (size - 1)) rfl (by omega)
  rw [List.length_nil, List.nil_append, List.nil_append] at hstore
  refine ⟨_, _, _, by rw [hstore]; rfl, Holds.of_append (g := s.buf.drop (h.bytes.take (size - 1)).length) ?_ ?_ ?_
    hlen.symm ?_ ?_⟩
  · rw [List.append_nil]
  · exact (length_store hstore).trans hb
  · rw [List.length_drop]
    omega
  · rw [List.length_nil, hlen, Nat.add_zero]
  · rw [List.append_nil]
    exact fun h0 => h.noNul (List.mem_of_mem_take h0)

lemma Shows.rewrite {p : ℕ} (h : Shows size history s e) (hp : p ≤ history.length) :
    ∃ s', ((if (p : ℤ) = history.length then Str.ofArray s.saved
        else if (p : ℤ) < 0 then none else history[(p : ℤ).toNat]?).bind fun h =>
      (store s.buf 0 (h.bytes.take (min h.bytes.length (sub64 size 1)))).map fun b =>
        { s with hist := p, len := min h.bytes.length (sub64 size 1), pos := min h.bytes.length (sub64 size 1),
                 buf := b }) = some s' ∧
      Shows size history s' { e with before := (e.lineAt history p).take (size - 1), after := [], place := p } := by
  have hline : ∃ line, (if (p : ℤ) = history.length then Str.ofArray s.saved
      else if (p : ℤ) < 0 then none else history[(p : ℤ).toNat]?) = some line ∧ line.bytes = e.lineAt history p := by
    rcases hp.eq_or_lt with rfl | hlt
    · obtain ⟨line, hline, hd⟩ := h.saved
      refine ⟨line, (if_pos rfl).trans hline, ?_⟩
      rw [hd, Edited.lineAt, List.getElem?_eq_none le_rfl]
      rfl
    · refine ⟨history[p], ?_, ?_⟩
      · rw [if_neg (by omega), if_neg (by omega), Int.toNat_natCast, List.getElem?_eq_getElem hlt]
      · rw [Edited.lineAt, List.getElem?_eq_getElem hlt]
        rfl
  obtain ⟨line, hline, hbytes⟩ := hline
  obtain ⟨b, len, pos, hop, hh⟩ := rewrite_edits (s := { s with hist := p }) (h := line) hs hmax h.holds.length
  rw [hbytes] at hh
  refine ⟨{ s with hist := p, buf := b, len := len, pos := pos }, ?_, hh, rfl, hp, h.length_saved, h.saved, h.draft,
    h.sigint⟩
  rw [hline, Option.bind_some]
  exact hop

lemma Shows.walkHistory {p : ℕ} {step : ℤ} (h : Shows size history s e) (hp : p ≤ history.length)
    (hstep : (p : ℤ) = e.place + step) :
    ∃ s', s.walkHistory size history step = some s' ∧ Shows size history s' (e.goTo size history p) := by
  have hhist := h.hist
  by_cases hnew : e.place = history.length
  · obtain ⟨b, saved, hkeep, hh, hlen, hline⟩ := keep_edits hs hmax h.holds h.length_saved
    have hkept : Shows size history { s with buf := b, saved := saved } { e with draft := e.text } := by
      refine ⟨hh, h.hist, h.place_le, hlen, ⟨_, hline, rfl⟩, ?_, h.sigint⟩
      have := h.holds.length_text
      exact this ▸ h.holds.len_lt
    obtain ⟨s', hs', hshow⟩ := hkept.rewrite hs hmax hp
    refine ⟨s', ?_, ?_⟩
    · rw [Line.walkHistory, if_pos (by rw [hhist, hnew]), hkeep, Option.bind_some]
      rw [hstep, ← hhist] at hs'
      exact hs'
    · rw [Edited.goTo, if_pos hnew]
      exact hshow
  · obtain ⟨s', hs', hshow⟩ := h.rewrite hs hmax hp
    refine ⟨s', ?_, ?_⟩
    · rw [Line.walkHistory, if_neg (by rw [hhist]; omega), Option.bind_some]
      rw [hstep, ← hhist] at hs'
      exact hs'
    · rw [Edited.goTo, if_neg hnew]
      exact hshow

omit hmax in
lemma refresh_eq (h : Holds size s.buf s.len s.pos l r) : s.refresh = some s := by
  obtain ⟨g, hb, -, -, -⟩ := h.parts hs
  have hload := load_eq (b := s.buf) (l := []) (w := l ++ r) (r := g) hb
  rw [← h.length_text, List.length_nil] at hload
  rw [Line.refresh, hload]
  rfl

end Edits

/-! Tab -/

section Candidates

variable {names list : List (List UInt8)} {w c : List UInt8} {first : Bool} {directories : Directories}

lemma mem_foldl_addCandidate (h : c ∈ names.foldl addCandidate list) : c ∈ list ∨ c ∈ names := by
  induction names generalizing list with
  | nil => exact .inl h
  | cons name names ih =>
    rcases ih h with h | h
    · unfold addCandidate at h
      split_ifs at h
      · exact .inl h
      · rw [List.mem_append, List.mem_singleton] at h
        rcases h with h | rfl
        · exact .inl h
        · exact .inr List.mem_cons_self
      · exact .inl h
    · exact .inr (List.mem_cons_of_mem _ h)

structure Candidate (part c : List UInt8) : Prop where
  goesOn : part <+: c
  noNul : 0 ∉ c
  short : c.length ≤ nameMax + 1

lemma DirEntry.candidate_of_offered {e : DirEntry} (h : e.offered w = true) : Candidate w e.candidate := by
  have hshort := e.short
  have hlen : (e.name.bytes ++ if e.isDir then [slash] else []).length ≤ nameMax + 1 := by
    rw [List.length_append]
    split_ifs
    · exact Nat.add_le_add_right hshort 1
    · exact Nat.le_succ_of_le hshort
  have hp : w <+: e.name.bytes := by
    rw [DirEntry.offered, Bool.and_eq_true] at h
    exact List.isPrefixOf_iff_prefix.1 h.2
  have he : e.candidate = e.name.bytes ++ if e.isDir then [slash] else [] := List.take_of_length_le hlen
  refine ⟨he ▸ hp.trans (List.prefix_append _ _), ?_, he ▸ hlen⟩
  rw [he, List.mem_append, not_or]
  refine ⟨e.name.noNul, ?_⟩
  split_ifs
  · decide
  · exact List.not_mem_nil

lemma candidate_of_builtin (h : c ∈ builtins) (hp : w <+: c) : Candidate w c := by
  have hall : ∀ b ∈ builtins, 0 ∉ b ∧ b.length ≤ nameMax + 1 := by decide
  exact ⟨hp, (hall c h).1, (hall c h).2⟩

lemma candidate_of_mem (h : c ∈ candidates first w directories) : Candidate (part w) c := by
  rcases mem_foldl_addCandidate h with h | h
  · rcases mem_foldl_addCandidate h with h | h
    · exact absurd h List.not_mem_nil
    · split_ifs at h
      · obtain ⟨hb, hp⟩ := List.mem_filter.1 h
        exact candidate_of_builtin hb (List.isPrefixOf_iff_prefix.1 hp)
      · exact absurd h List.not_mem_nil
  · obtain ⟨e, he, rfl⟩ := List.mem_map.1 h
    exact DirEntry.candidate_of_offered (List.mem_filter.1 he).2

lemma addition_eq (h : ∀ c ∈ names, Candidate w c) : addition w.length names = some (common w.length names) := by
  cases names with
  | nil =>
    rw [addition, common, longestCommonPrefix, List.drop_nil, if_neg (fun h => by cases h.1)]
  | cons first rest =>
    have hfirst := h first List.mem_cons_self
    have hshort := hfirst.short
    have htake : first.take (rest.foldl (fun n y => agree n y first) first.length) =
      longestCommonPrefix (first :: rest) := take_foldl_agree
    have hbound : rest.foldl (fun n y => agree n y first) first.length ≤ first.length :=
      (le_foldl_agree_iff.1 le_rfl).1
    generalize hk : rest.foldl (fun n y => agree n y first) first.length = k at htake hbound
    have hword : w <+: longestCommonPrefix (first :: rest) :=
      (prefix_longestCommonPrefix_iff (List.cons_ne_nil first rest)).2 fun c hc => (h c hc).goesOn
    have hle : w.length ≤ k := by
      have := hword.length_le
      rw [← htake, List.length_take] at this
      omega
    have hlen : ((first.take k).drop w.length).length = k - w.length := by
      rw [List.length_drop, List.length_take]
      omega
    have hparts : first ++ [0] = first.take w.length ++ (first.take k).drop w.length ++ (first.drop k ++ [0]) := by
      have hw : first.take w.length = (first.take k).take w.length := by rw [List.take_take, Nat.min_eq_left hle]
      rw [hw, List.take_append_drop, ← List.append_assoc, List.take_append_drop]
    have hload := load_eq hparts
    rw [List.length_take, Nat.min_eq_left (hle.trans hbound), hlen] at hload
    have hsub : sub64 k w.length = k - w.length := sub64_of_le hle (by unfold nameMax at hshort; omega)
    have harray : ∀ l : List UInt8, l.length ≤ k - w.length + 1 → inArray (nameMax + 2) l = some l := fun l hl =>
      if_pos (by omega)
    have hone : (first :: rest).length = 1 ↔ rest = [] := by
      rw [List.length_cons, Nat.add_eq_right, List.length_eq_zero_iff]
    rw [addition, hk, hsub, hload, Option.bind_some, harray _ (by rw [hlen]; exact Nat.le_succ _), Option.bind_some, common,
      ← htake]
    by_cases hc : rest = [] ∧ ((first.take k).drop w.length).getLast? ≠ some slash
    · rw [if_pos hc, if_pos ⟨hone.2 hc.1, hc.2⟩]
      exact harray _ (by rw [List.length_append, hlen, List.length_singleton])
    · rw [if_neg hc, if_neg fun h => hc ⟨hone.1 h.1, h.2⟩]

lemma noNul_common (h : ∀ c ∈ names, Candidate w c) (n : ℕ) : 0 ∉ common n names := by
  have hadd : 0 ∉ (longestCommonPrefix names).drop n := by
    intro h0
    cases names with
    | nil =>
      rw [longestCommonPrefix, List.drop_nil] at h0
      exact List.not_mem_nil h0
    | cons first rest =>
      have hp := (prefix_longestCommonPrefix_iff (List.cons_ne_nil first rest)).1 (List.prefix_refl _) first
        List.mem_cons_self
      exact (h first List.mem_cons_self).noNul (hp.subset (List.mem_of_mem_drop h0))
  unfold common
  dsimp only
  split_ifs
  · rw [List.mem_append, not_or]
    exact ⟨hadd, by decide⟩
  · exact hadd

end Candidates

section Keys

variable {size : ℕ} {s : Line} {l r : List UInt8} {c : UInt8} {history : List Str} {e : Edited}
  {directories : Directories}

lemma wordAt_eq (hs : 0 < size) (hmax : size ≤ lineMax) (h : Holds size s.buf s.len s.pos l r) :
    s.wordAt = some (isFirstWord l, (l.rdropWhile fun c => !strchr breaks c).length, (lastWord l).length) := by
  obtain ⟨g, hb, hg, hp, hl⟩ := h.parts hs
  have hlt := size_lt hmax
  have hle := h.len_lt
  have hword : (l.rdropWhile fun c => !strchr breaks c) ++ lastWord l = l := List.rdropWhile_append_rtakeWhile ..
  have hstart : backWhile (fun c => !strchr breaks c) s.buf s.pos =
      some (l.rdropWhile fun c => !strchr breaks c).length := by
    rw [hb, hp, List.append_assoc, backWhile_eq]
  unfold isFirstWord
  generalize (l.rdropWhile fun c => !strchr breaks c) = m at *
  have hwlen : sub64 s.pos m.length = (lastWord l).length := by
    have := congrArg List.length hword
    rw [List.length_append] at this
    rw [sub64_of_le (by omega) (by omega)]
    omega
  have hb' : s.buf = m ++ (lastWord l ++ r ++ g) := by
    rw [hb]
    conv_lhs => rw [← hword]
    simp only [List.append_assoc]
  have hspaces : backWhile (· == 32) s.buf m.length = some (m.rdropWhile (· == 32)).length := by
    rw [hb', backWhile_eq]
  obtain ⟨y, hy⟩ := List.rdropWhile_prefix (p := (· == 32)) m
  rw [Line.wordAt, hstart, Option.bind_some, hspaces, Option.bind_some, hwlen]
  generalize m.rdropWhile (· == 32) = k at *
  rcases List.eq_nil_or_concat' k with rfl | ⟨k, c, rfl⟩
  · rw [List.length_nil, if_pos rfl]
    rfl
  · have hget : s.buf[(k ++ [c]).length - 1]? = some c := by
      rw [hb', ← hy, List.length_append, List.length_singleton, Nat.add_sub_cancel]
      simp only [List.append_assoc]
      rw [List.getElem?_append_right le_rfl, Nat.sub_self]
      rfl
    rw [if_neg (by simp), hget, List.getLast?_concat]
    rfl

variable (directories) in
lemma complete_edits (hs : 0 < size) (hmax : size ≤ lineMax) (h : Holds size s.buf s.len s.pos l r) :
    Edits size s (s.complete (sub64 size 1) directories)
      (if (l ++ r).length + (completion l directories).length < size - 1 then l ++ completion l directories else l)
      r := by
  obtain ⟨g, hb, hg, hp, hl⟩ := h.parts hs
  have hlt := size_lt hmax
  have hle := h.len_lt
  have hall := congrArg List.length hb
  rw [h.length, List.length_append] at hall
  have hword : (l.rdropWhile fun c => !strchr breaks c) ++ lastWord l = l := List.rdropWhile_append_rtakeWhile ..
  have hwlen : (lastWord l).length ≤ l.length := by
    have := congrArg List.length hword
    rw [List.length_append] at this
    omega
  have hnoNul : 0 ∉ lastWord l := fun h0 => by
    refine h.noNul (List.mem_append_left _ ?_)
    rw [← hword]
    exact List.mem_append_right _ h0
  have hload : load s.buf (l.rdropWhile fun c => !strchr breaks c).length (lastWord l).length = some (lastWord l) := by
    apply load_eq (r := r ++ g)
    rw [hword, hb, List.append_assoc]
  have hshort : ¬ (lastWord l).length ≥ pathMax := by
    have : lineMax = pathMax := rfl
    omega
  have hcand : ∀ c ∈ candidates (isFirstWord l) (lastWord l) directories, Candidate (part (lastWord l)) c :=
    fun c hc => candidate_of_mem hc
  rw [Line.complete, wordAt_eq hs hmax h, Option.bind_some]
  dsimp only
  rw [if_neg hshort, hload, Option.bind_some, ofArray_eq hnoNul, Option.bind_some]
  dsimp only
  have hadd := addition_eq hcand
  have hno := noNul_common hcand (part (lastWord l)).length
  unfold completion
  generalize candidates (isFirstWord l) (lastWord l) directories = names at *
  by_cases hnames : names = []
  · have hnone : common (part (lastWord l)).length names = [] := by
      rw [hnames, common, longestCommonPrefix, List.drop_nil, if_neg (fun h => by cases h.1)]
    rw [if_pos hnames, hnone, List.append_nil, ite_self]
    exact ⟨s.buf, s.len, s.pos, rfl, h⟩
  rw [if_neg hnames]
  generalize common (part (lastWord l)).length names = add at *
  have hins : Edits size s (s.insertAdd (size - 1) add)
      (if (l ++ r).length + add.length < size - 1 then l ++ add else l) r := by
    rw [Line.insertAdd, ← h.length_text]
    split_ifs with hroom
    · have hlen := h.length_text
      exact insert_edits hs hmax hb h (by omega) hno
    · exact ⟨s.buf, s.len, s.pos, rfl, h⟩
  obtain ⟨b, len, pos, hop, hh⟩ := hins
  refine ⟨b, len, pos, ?_, hh⟩
  rw [hadd, Option.bind_some, sub64_of_le (by omega) hlt, hop, Option.bind_some]
  exact refresh_eq (s := { s with buf := b, len := len, pos := pos }) hs hh

lemma toStart_edits (hs : 0 < size) (h : Holds size s.buf s.len s.pos l r) : Edits size s (some s.toStart) [] (l ++ r) :=
  Edits.cursor hs h rfl rfl rfl

lemma toEnd_edits (hs : 0 < size) (h : Holds size s.buf s.len s.pos l r) : Edits size s (some s.toEnd) (l ++ r) [] :=
  Edits.cursor hs h (List.append_nil _).symm rfl h.length_text

lemma Shows.signalled (h : Shows size history s e) (b : Bool) : Shows size history (s.signalled b) (e.signalled b) :=
  ⟨h.holds, h.hist, h.place_le, h.length_saved, h.saved, h.draft, congrArg (· || b) h.sigint⟩

lemma Edited.signalled_signalled (b b' : Bool) : (e.signalled b).signalled b' = e.signalled (b || b') := by
  rw [Edited.signalled, Edited.signalled, Edited.signalled, Bool.or_assoc]

lemma Edited.goTo_signalled (p : ℕ) (b : Bool) :
    (e.goTo size history p).signalled b = (e.signalled b).goTo size history p := by
  unfold Edited.goTo
  by_cases hp : e.place = history.length
  · have hp' : (e.signalled b).place = history.length := hp
    rw [if_pos hp, if_pos hp']
    rfl
  · have hp' : ¬ (e.signalled b).place = history.length := hp
    rw [if_neg hp, if_neg hp']
    rfl

lemma Edited.apply_signalled (k : Command) (b : Bool) :
    (e.apply size history directories k).signalled b = (e.signalled b).apply size history directories k := by
  cases k with
  | insert c | complete => exact apply_ite (Edited.signalled · b) _ _ _
  | older | newer =>
    rw [Edited.apply, apply_ite (Edited.signalled · b), Edited.goTo_signalled]
    rfl
  | _ => rfl

lemma Shows.edits_ite {p : Prop} [Decidable p] {op : Option Line} (h : Shows size history s e)
    (he : Edits size s op (if p then l else e.before) e.after) :
    ∃ s', op = some s' ∧ Shows size history s' (if p then { e with before := l } else e) := by
  obtain ⟨s', hop, hs'⟩ := h.edits he
  refine ⟨s', hop, ?_⟩
  split_ifs at hs' ⊢
  · exact hs'
  · exact hs'

def Performs (size : ℕ) (history : List Str) (directories : Directories) (op : Option Line) (e : Edited)
    (k : Command) : Prop := ∃ s', op = some s' ∧ Shows size history s' (e.apply size history directories k)

lemma editKey_performs (hs : 0 < size) (hmax : size ≤ lineMax) (h : Shows size history s e) (h4 : c ≠ 4) (h9 : c ≠ 9) :
    Performs size history directories (s.editKey size c) e (byteCommand c) := by
  unfold Line.editKey byteCommand
  by_cases hback : c = 127 ∨ c = 8
  · rw [if_pos hback]
    rcases hback with rfl | rfl
    · exact h.edits (backspace_edits hs hmax h.holds)
    · exact h.edits (backspace_edits hs hmax h.holds)
  rw [if_neg hback, if_neg h4, if_neg h9, if_neg (fun he : c = 8 ∨ c = 127 => hback he.symm)]
  by_cases h1 : c = 1
  · rw [if_pos h1, if_pos h1]
    exact h.edits (toStart_edits hs h.holds)
  rw [if_neg h1, if_neg h1]
  by_cases h5 : c = 5
  · rw [if_pos h5, if_pos h5]
    exact h.edits (toEnd_edits hs h.holds)
  rw [if_neg h5, if_neg h5]
  by_cases h21 : c = 21
  · subst h21
    exact h.edits (killToStart_edits hs hmax h.holds)
  rw [if_neg h21, if_neg h21]
  by_cases h11 : c = 11
  · rw [if_pos h11, if_pos h11]
    exact h.edits (killToEnd_edits hs h.holds)
  rw [if_neg h11, if_neg h11]
  by_cases h23 : c = 23
  · rw [if_pos h23, if_pos h23]
    exact h.edits (killWord_edits hs hmax h.holds)
  rw [if_neg h23, if_neg h23]
  by_cases h12 : c = 12
  · subst h12
    exact ⟨s, rfl, h⟩
  rw [if_neg h12]
  by_cases h32 : 32 ≤ c
  · rw [if_pos h32, if_pos h32]
    have hc : c ≠ 0 := by
      rintro rfl
      cases h32
    exact h.edits_ite (insertChar_edits hs hmax h.holds hc)
  · rw [if_neg h32, if_neg h32]
    exact ⟨s, rfl, h⟩

lemma deleteHere_performs (hs : 0 < size) (hmax : size ≤ lineMax) (h : Shows size history s e) :
    Performs size history directories s.deleteHere e .delete :=
  h.edits (deleteHere_edits hs hmax h.holds)

lemma digitKey_performs (hs : 0 < size) (hmax : size ≤ lineMax) (h : Shows size history s e) :
    Performs size history directories (s.digitKey c) e (digitCommand c) := by
  unfold Line.digitKey digitCommand
  by_cases h51 : c = 51
  · subst h51
    have hd : Performs size history directories s.deleteHere e .delete := deleteHere_performs hs hmax h
    rw [Line.deleteHere] at hd
    by_cases hlt : s.pos < s.len
    · rw [if_pos hlt] at hd
      rw [if_pos ⟨rfl, hlt⟩]
      exact hd
    · rw [if_neg hlt] at hd
      rw [if_neg (fun h => hlt h.2)]
      exact hd
  rw [if_neg (fun h => h51 h.1), if_neg h51]
  by_cases hhome : c = 49 ∨ c = 55
  · rw [if_pos hhome, if_pos hhome]
    exact h.edits (toStart_edits hs h.holds)
  rw [if_neg hhome, if_neg hhome]
  by_cases hend : c = 52 ∨ c = 56
  · rw [if_pos hend, if_pos hend]
    exact h.edits (toEnd_edits hs h.holds)
  · rw [if_neg hend, if_neg hend]
    exact ⟨s, rfl, h⟩

lemma right_performs (hs : 0 < size) (h : Shows size history s e) :
    Performs size history directories (if s.pos < s.len then some { s with pos := s.pos + 1 } else some s) e .right := by
  obtain ⟨g, -, -, hp, hl⟩ := h.holds.parts hs
  obtain ⟨before, after, place, draft, sigint⟩ := e
  dsimp only at hp hl
  cases after with
  | nil =>
    rw [List.length_nil] at hl
    rw [if_neg (by omega)]
    refine ⟨s, rfl, ?_⟩
    rw [Edited.apply, List.head?_nil, Option.toList_none, List.append_nil]
    exact h
  | cons c after =>
    rw [List.length_cons] at hl
    rw [if_pos (by omega)]
    refine h.edits (Edits.cursor hs h.holds ?_ rfl ?_)
    · rw [List.head?_cons, Option.toList_some, List.append_assoc]
      rfl
    · rw [hp, List.head?_cons, Option.toList_some, List.length_append, List.length_singleton]

lemma left_performs (hs : 0 < size) (h : Shows size history s e) :
    Performs size history directories (if s.pos > 0 then some { s with pos := s.pos - 1 } else some s) e .left := by
  obtain ⟨g, -, -, hp, hl⟩ := h.holds.parts hs
  obtain ⟨before, after, place, draft, sigint⟩ := e
  dsimp only at hp hl
  rcases List.eq_nil_or_concat' before with rfl | ⟨before, c, rfl⟩
  · rw [List.length_nil] at hp
    rw [if_neg (by omega)]
    exact ⟨s, rfl, h⟩
  · rw [List.length_append, List.length_singleton] at hp
    rw [if_pos (by omega)]
    refine h.edits (Edits.cursor hs h.holds ?_ rfl ?_)
    · rw [List.dropLast_concat, List.getLast?_concat, Option.toList_some, List.append_assoc]
    · rw [List.dropLast_concat, hp, Nat.add_sub_cancel]

lemma letterKey_performs (hs : 0 < size) (hmax : size ≤ lineMax) (h : Shows size history s e) :
    Performs size history directories (s.letterKey size history c) e (letterCommand c) := by
  have hhist := h.hist
  unfold Line.letterKey letterCommand
  by_cases h67 : c = 67
  · subst h67
    have hr : Performs size history directories (if s.pos < s.len then _ else _) e .right := right_performs hs h
    by_cases hlt : s.pos < s.len
    · rw [if_pos hlt] at hr
      rw [if_pos ⟨rfl, hlt⟩]
      exact hr
    · rw [if_neg hlt] at hr
      rw [if_neg (fun h => hlt h.2)]
      exact hr
  rw [if_neg (fun h => h67 h.1)]
  by_cases h68 : c = 68
  · subst h68
    have hl : Performs size history directories (if s.pos > 0 then _ else _) e .left := left_performs hs h
    by_cases hlt : s.pos > 0
    · rw [if_pos hlt] at hl
      rw [if_pos ⟨rfl, hlt⟩]
      exact hl
    · rw [if_neg hlt] at hl
      rw [if_neg (fun h => hlt h.2)]
      exact hl
  rw [if_neg (fun h => h68 h.1)]
  by_cases h72 : c = 72
  · subst h72
    exact h.edits (toStart_edits hs h.holds)
  rw [if_neg h72]
  by_cases h70 : c = 70
  · subst h70
    exact h.edits (toEnd_edits hs h.holds)
  rw [if_neg h70, if_neg h67, if_neg h68, if_neg h70, if_neg h72]
  by_cases h65 : c = 65
  · subst h65
    rw [if_pos rfl, if_pos rfl, Performs, Edited.apply]
    by_cases hold : 0 < e.place
    · rw [if_pos (.inl ⟨rfl, by omega⟩), if_pos hold]
      exact h.walkHistory hs hmax ((Nat.sub_le _ _).trans h.place_le) (by omega)
    · rw [if_neg (by rintro (⟨-, h⟩ | ⟨h, -⟩) <;> [omega; exact absurd h (by decide)]), if_neg hold]
      exact ⟨s, rfl, h⟩
  rw [if_neg h65, if_neg h65]
  by_cases h66 : c = 66
  · subst h66
    rw [if_pos rfl, Performs, Edited.apply]
    by_cases hnew : e.place < history.length
    · rw [if_pos (.inr ⟨rfl, by omega⟩), if_pos hnew]
      exact h.walkHistory hs hmax hnew (by omega)
    · rw [if_neg (by rintro (⟨h, -⟩ | ⟨-, h⟩) <;> [exact absurd h (by decide); omega]), if_neg hnew]
      exact ⟨s, rfl, h⟩
  · rw [if_neg (by tauto), if_neg h66]
    exact ⟨s, rfl, h⟩

def Follows (size : ℕ) (history : List Str) (o : Option (Turn Line)) (t : Turn Edited) : Prop :=
  ∃ t', o = some t' ∧ SameTurn size history t' t

lemma Performs.follows {op : Option Line} {k : Command} (hs : 0 < size)
    (h : Performs size history directories op e k) (gs : List Input) :
    Follows size history (Line.shown gs op) (.again (e.apply size history directories k) gs) := by
  obtain ⟨s', rfl, hs'⟩ := h
  refine ⟨_, ?_, SameTurn.again hs' gs⟩
  rw [Line.shown, Option.bind_some, refresh_eq hs hs'.holds]
  rfl

lemma escape_follows (hs : 0 < size) (hmax : size ≤ lineMax) (h : Shows size history s e) (gs : List Input) :
    Follows size history (s.escape size history gs)
      (.again ((e.apply size history directories (escapeCommand gs).1).signalled (escapeCommand gs).2.1)
        (escapeCommand gs).2.2) := by
  unfold Line.escape escapeCommand
  rcases readByte gs with ⟨_ | s1, b, gs⟩
  · exact ⟨_, rfl, SameTurn.again (h.signalled b) gs⟩
  dsimp only
  rcases readByte gs with ⟨_ | s2, b', gs⟩
  · refine ⟨_, rfl, ?_⟩
    rw [← Edited.signalled_signalled]
    exact SameTurn.again ((h.signalled b).signalled b') gs
  dsimp only
  have h' := (h.signalled b).signalled b'
  by_cases hone : s1 = 91 ∨ s1 = 79
  · rw [if_pos hone, if_neg (by tauto)]
    by_cases hdigit : 48 ≤ s2 ∧ s2 ≤ 57
    · rw [if_pos hdigit, if_pos hdigit]
      rcases readByte gs with ⟨_ | t, b'', gs⟩
      · refine ⟨_, rfl, ?_⟩
        rw [← Edited.signalled_signalled, ← Edited.signalled_signalled]
        exact SameTurn.again (h'.signalled b'') gs
      · rw [Edited.apply_signalled, ← Edited.signalled_signalled, ← Edited.signalled_signalled]
        exact (digitKey_performs hs hmax (h'.signalled b'')).follows hs gs
    · rw [if_neg hdigit, if_neg hdigit, Edited.apply_signalled, ← Edited.signalled_signalled]
      exact (letterKey_performs hs hmax h').follows hs gs
  · rw [if_neg hone, if_pos (by tauto)]
    refine ⟨_, rfl, ?_⟩
    rw [← Edited.signalled_signalled]
    exact SameTurn.again h' gs

lemma key_follows (hs : 0 < size) (hmax : size ≤ lineMax) (h : Shows size history s e) (hsig : e.sigint = false)
    {i : Input} (hi : i.got = .byte c) (hb : i.sigint = false) (gs : List Input) :
    Follows size history (s.key size history c i.directories gs) (e.turn size history (i :: gs)) := by
  have hquiet : e.signalled i.sigint = e := by rw [hb, Edited.signalled, Bool.or_false]
  have hlen : s.len = e.text.length := h.holds.length_text
  rw [Line.key, Edited.turn]
  dsimp only
  rw [hquiet, hi]
  dsimp only
  rw [hsig, if_neg Bool.false_ne_true]
  by_cases henter : c = 10 ∨ c = 13
  · rw [if_pos henter, if_pos henter, hlen]
    exact ⟨_, rfl, SameTurn.returns h _⟩
  rw [if_neg henter, if_neg henter]
  by_cases h4 : c = 4
  · by_cases hempty : e.text = []
    · have hzero : s.len = 0 := by rw [hlen, hempty, List.length_nil]
      rw [if_pos h4, if_pos hzero, if_pos ⟨h4, hempty⟩]
      exact ⟨_, rfl, SameTurn.returns h _⟩
    · have hpos : ¬ s.len = 0 := fun h0 => hempty (List.length_eq_zero_iff.1 (hlen ▸ h0))
      have hedit : ¬ (c = 4 ∧ e.text = []) := fun h => hempty h.2
      subst h4
      rw [if_pos rfl, if_neg hpos, if_neg hedit]
      exact (deleteHere_performs hs hmax h).follows hs gs
  have hedit : ¬ (c = 4 ∧ e.text = []) := fun h => h4 h.1
  rw [if_neg h4, if_neg hedit]
  by_cases h9 : c = 9
  · obtain ⟨s', hop, hs'⟩ := h.edits_ite (complete_edits i.directories hs hmax h.holds)
    rw [if_pos h9, hop]
    subst h9
    exact ⟨.again s' gs, rfl, SameTurn.again hs' gs⟩
  rw [if_neg h9]
  by_cases h27 : c = 27
  · rw [if_pos h27, if_pos h27]
    exact escape_follows hs hmax h gs
  · rw [if_neg h27, if_neg h27]
    exact (editKey_performs hs hmax h h4 h9).follows hs gs

lemma round_follows (hs : 0 < size) (hmax : size ≤ lineMax) (h : Shows size history s e) (gs : List Input) :
    Follows size history (s.round size history gs) (e.turn size history gs) := by
  cases gs with
  | nil =>
    refine ⟨_, rfl, ?_⟩
    rw [h.sigint]
    exact SameTurn.returns h _
  | cons i gs =>
    have h' := h.signalled i.sigint
    have hsig := h'.sigint
    rw [Line.round]
    cases hi : i.got with
    | interrupted =>
      rw [Edited.turn, hi]
      exact ⟨_, rfl, SameTurn.returns h' _⟩
    | failed =>
      rw [Edited.turn, hi, hsig]
      exact ⟨_, rfl, SameTurn.returns h' _⟩
    | byte c =>
      dsimp only
      cases hc : (e.signalled i.sigint).sigint with
      | true =>
        rw [hsig, hc, Edited.turn, hi]
        dsimp only
        rw [hc]
        exact ⟨_, rfl, SameTurn.returns h' _⟩
      | false =>
        obtain ⟨he, hb⟩ := Bool.or_eq_false_iff.1 hc
        have hk := key_follows hs hmax h he hi hb gs
        have hquiet : s.signalled i.sigint = s := by rw [hb, Line.signalled, Bool.or_false]
        rw [hsig, hc, if_neg Bool.false_ne_true, hquiet]
        exact hk

lemma rounds_follows (hs : 0 < size) (hmax : size ≤ lineMax) (h : Shows size history s e) (gs : List Input) (n : ℕ) :
    Follows size history (s.rounds size history gs n) (e.turns size history gs n) := by
  induction n with
  | zero => exact ⟨_, rfl, SameTurn.again h gs⟩
  | succ n ih =>
    obtain ⟨t, ht, hsame⟩ := ih
    rw [Line.rounds, ht, Option.bind_some, Edited.turns]
    generalize e.turns size history gs n = t₁ at hsame
    cases hsame with
    | again h gs => exact round_follows hs hmax h gs
    | returns h result => exact ⟨_, rfl, SameTurn.returns h result⟩

/-! The end -/

lemma length_readByte_le (gs : List Input) : (readByte gs).2.2.length ≤ gs.length := by
  cases gs with
  | nil => exact Nat.le_refl _
  | cons i gs => exact Nat.le_succ _

lemma length_escapeCommand_le (gs : List Input) : (escapeCommand gs).2.2.length ≤ gs.length := by
  have h₁ := length_readByte_le gs
  unfold escapeCommand
  generalize readByte gs = x at h₁
  obtain ⟨_ | s1, b, gs₁⟩ := x
  · exact h₁
  have h₂ := length_readByte_le gs₁
  dsimp only
  generalize readByte gs₁ = x at h₂
  obtain ⟨_ | s2, b', gs₂⟩ := x
  · exact h₂.trans h₁
  have h₃ := length_readByte_le gs₂
  dsimp only
  generalize readByte gs₂ = x at h₃
  split_ifs
  · obtain ⟨_ | t, b'', gs₃⟩ := x
    · exact h₃.trans (h₂.trans h₁)
    · exact h₃.trans (h₂.trans h₁)
  · exact h₂.trans h₁
  · exact h₂.trans h₁

def Turn.Before {σ : Type} (n : ℕ) : Turn σ → Prop
  | .again _ gs => gs.length < n
  | .returns _ _ => True

lemma turn_before (gs : List Input) : (e.turn size history gs).Before gs.length := by
  cases gs with
  | nil => exact trivial
  | cons i gs =>
    rw [Edited.turn]
    cases i.got with
    | interrupted => exact trivial
    | failed => exact trivial
    | byte c =>
      dsimp only
      split_ifs
      · exact trivial
      · exact trivial
      · exact trivial
      · exact Nat.lt_succ_of_le (length_escapeCommand_le gs)
      · exact Nat.lt_succ_self _

lemma turns_before (gs : List Input) (n : ℕ) : (e.turns size history gs n).Before (gs.length + 1 - n) := by
  induction n with
  | zero => exact Nat.lt_succ_self _
  | succ n ih =>
    rw [Edited.turns]
    cases ht : e.turns size history gs n with
    | again e gs' =>
      rw [ht] at ih
      have hlt : gs'.length < gs.length + 1 - n := ih
      have hnext : (e.turn size history gs').Before gs'.length := turn_before gs'
      dsimp only
      cases ht' : e.turn size history gs' with
      | again e gs'' =>
        rw [ht'] at hnext
        have : gs''.length < gs'.length := hnext
        change gs''.length < _
        omega
      | returns result e => exact trivial
    | returns result e => exact trivial

lemma turns_returns (gs : List Input) : ∃ result e', e.turns size history gs (gs.length + 1) = .returns result e' := by
  have h : (e.turns size history gs (gs.length + 1)).Before _ := turns_before gs (gs.length + 1)
  rw [Nat.sub_self] at h
  cases ht : e.turns size history gs (gs.length + 1) with
  | again e' gs' =>
    rw [ht] at h
    exact absurd h (Nat.not_lt_zero _)
  | returns result e' => exact ⟨result, e', rfl⟩

lemma start_shows {buf : List UInt8} (hs : 0 < size) (hbuf : buf.length = size) (history : List Str) :
    Shows size history (Line.start buf history) (Edited.start history) where
  holds := Holds.of_append (g := buf) rfl hbuf (hbuf ▸ hs) rfl rfl List.not_mem_nil
  hist := rfl
  place_le := le_rfl
  length_saved := List.length_replicate
  saved := ⟨⟨[], List.not_mem_nil⟩, ofArray_eq (w := []) List.not_mem_nil _, rfl⟩
  draft := Nat.zero_le _
  sigint := rfl

lemma end_eq {buf : List UInt8} (hs : 0 < size) {len pos : ℕ} (h : Holds size buf len pos l r) :
    ∃ buf', store buf len [0] = some buf' ∧ buf'.length = size ∧ Str.ofArray buf' = some ⟨l ++ r, h.noNul⟩ := by
  obtain ⟨g, hb, hg, -, -⟩ := h.parts hs
  have hstore := store_eq (w := [0]) hb hg
  rw [← h.length_text] at hstore
  refine ⟨_, hstore, (length_store hstore).trans h.length, ?_⟩
  rw [List.append_assoc _ [0], List.singleton_append, ofArray_eq h.noNul]

theorem editLine_refines (hs : 0 < size) (hmax : size ≤ lineMax) {buf : List UInt8} (hbuf : buf.length = size)
    (history : List Str) (gs : List Input) :
    (∀ n, Follows size history ((Line.start buf history).rounds size history gs n)
      ((Edited.start history).turns size history gs n)) ∧
    ∃ result e line buf', (Edited.start history).turns size history gs (gs.length + 1) = .returns result e ∧
      editLine size buf history gs = some (result, buf', if 0 ≤ result then historyAdd history line else history) ∧
      buf'.length = size ∧ Str.ofArray buf' = some line ∧ line.bytes = e.text := by
  have hrounds := rounds_follows hs hmax (start_shows hs hbuf history) gs
  refine ⟨hrounds, ?_⟩
  obtain ⟨result, e, he⟩ : ∃ result e, (Edited.start history).turns size history gs (gs.length + 1) =
    .returns result e := turns_returns gs
  obtain ⟨t, ht, hsame⟩ := hrounds (gs.length + 1)
  rw [he] at hsame
  cases hsame with
  | @returns s _ h _ =>
    obtain ⟨buf', hstore, hlen, hline⟩ := end_eq hs h.holds
    refine ⟨result, e, ⟨e.text, h.holds.noNul⟩, buf', he, ?_, hlen, hline, rfl⟩
    rw [editLine, ht, Option.bind_some]
    dsimp only
    rw [hstore, Option.bind_some]
    split_ifs
    · rw [hline]
      rfl
    · rfl

def typedKeys : List Input := [97, 98, 27, 91, 68, 99, 13].map fun c => ⟨.byte c, false, fun _ => none⟩

theorem editLine_refines_keys : ∃ buf' line, editLine 8 (List.replicate 8 7) [] typedKeys = some (3, buf', [line]) ∧
    Str.ofArray buf' = some line ∧ line.bytes = [97, 99, 98] := by
  obtain ⟨-, result, e, line, buf', hturns, hedit, -, hline, htext⟩ :=
    @editLine_refines 8 (by decide) (by decide) (List.replicate 8 7) rfl [] typedKeys
  have hrun : (Edited.start []).turns 8 [] typedKeys (typedKeys.length + 1) = .returns 3 ⟨[97, 99], [98], 0, [], false⟩ :=
    rfl
  obtain ⟨rfl, rfl⟩ := Turn.returns.inj (hrun.symm.trans hturns)
  have hbytes : line.bytes = [97, 99, 98] := htext
  have hadd : historyAdd [] line = [line] := by
    rw [historyAdd, if_neg (by rw [hbytes]; simp), if_neg (by decide)]
    rfl
  exact ⟨buf', line, by rw [hedit, if_pos (by decide), hadd], hline, hbytes⟩

end Keys

end MyOS.User.Shell
