import MyOS.Library.Bytes
import MyOS.Library.Chunks
import MyOS.Library.System

/-! The terminal in canonical mode: lines are edited in the kernel and read when they are complete. -/

namespace MyOS.Drivers

open Library

def lineMax : ℕ := 1024

structure Termios where
  icrnl : Bool := true
  isig : Bool := true
  echo : Bool := true
  echoe : Bool := true
  vintr : UInt8 := 0x03
  vquit : UInt8 := 0x1c
  vsusp : UInt8 := 0x1a
  verase : UInt8 := 0x7f
  vkill : UInt8 := 0x15
  veof : UInt8 := 0x04

inductive EscState
  | none
  | esc
  | csi
  deriving DecidableEq, Repr

structure Tty where
  tio : Termios := {}
  line : ℕ → UInt8 := fun _ => 0
  len : ℕ := 0
  ready : ℕ := 0
  rpos : ℕ := 0
  eof : Bool := false
  escState : EscState := .none
  shown : List UInt8 := []

namespace Termios

variable (t : Termios)

def IsSignal (c : UInt8) : Prop := t.isig = true ∧ (c = t.vintr ∨ c = t.vquit ∨ c = t.vsusp)

instance (c : UInt8) : Decidable (t.IsSignal c) := inferInstanceAs (Decidable (_ ∧ _))

def translate (c : UInt8) : UInt8 := if c = 0x0d ∧ t.icrnl = true then 0x0a else c

end Termios

def EscState.next : EscState → UInt8 → EscState
  | .none, c => if c = 0x1b then .esc else .none
  | .esc, c => if c = 0x5b ∨ c = 0x4f then .csi else .none
  | .csi, c => if 0x40 ≤ c ∧ c ≤ 0x7e then .none else .csi

namespace Tty

variable (s : Tty)

def write (l : List UInt8) : Tty := if s.tio.echo then { s with shown := s.shown ++ l } else s

def eraseOne : Tty :=
  if s.len = s.ready then s
  else
    let s := { s with len := s.len - 1 }
    if s.tio.echoe then s.write [0x08, 0x20, 0x08] else s

def put (c : UInt8) : Tty :=
  { s with line := Function.update s.line s.len c, len := s.len + 1 }

def canonInput (c : UInt8) : Tty :=
  if s.escState ≠ .none ∨ c = 0x1b then { s with escState := s.escState.next c }
  else
    let c := s.tio.translate c
    if c = s.tio.verase ∨ c = 0x08 then s.eraseOne
    -- As long as `len > ready`.
    else if c = s.tio.vkill then eraseOne^[s.len - s.ready] s
    else if s.tio.IsSignal c then { s with len := s.ready }
    else if c = s.tio.veof then
      { s with eof := if s.len = s.ready then true else s.eof, ready := s.len }
    else if c = 0x0a then
      let s := if s.len < lineMax then s.put 0x0a else s
      { s with ready := s.len }.write [0x0a]
    else if 32 ≤ c ∨ c = 0x09 then
      if s.len < lineMax - 1 then (s.put c).write [c] else s
    else s

def Waits : Prop := s.rpos = s.ready ∧ s.eof = false

instance : Decidable s.Waits := inferInstanceAs (Decidable (_ ∧ _))

def deliver (n : ℕ) : List UInt8 × Tty :=
  if s.rpos = s.ready then ([], { s with eof := false })
  else
    let k := min n (s.ready - s.rpos)
    let t := { s with rpos := s.rpos + k }
    (Bytes.load s.line s.rpos k,
      if t.rpos = t.ready then
        -- The `memmove` of what follows.
        { t with
          line := Bytes.store t.line 0 (Bytes.load t.line t.ready (t.len - t.ready))
          len := t.len - t.ready
          ready := 0
          rpos := 0 }
      else t)

end Tty

/-- The terminal with its reader, who has the lock and wants so many characters. `typed` and `results`
are not in the source: the characters taken from the console, and the reads that returned with their
lengths. -/
structure TtyState where
  tty : Tty
  reader : Option ℕ := none
  typed : List UInt8 := []
  results : List (ℕ × List UInt8) := []

inductive TtyAction
  | read (n : ℕ)
  | key (c : UInt8)
  | interrupt
  | finish

/-- A terminal whose settings nobody changes. A read in the background does not get to the terminal;
`interrupt` is a `console_getc` that fails because of a signal. -/
inductive TtyStep : TtyState → TtyAction → TtyState → Prop
  | read {s n} (h : s.reader = none) (hn : 0 < n) : TtyStep s (.read n) { s with reader := some n }
  | key {s n c} (h : s.reader = some n) (hw : s.tty.Waits) :
      TtyStep s (.key c) { s with tty := s.tty.canonInput c, typed := s.typed ++ [c] }
  | interrupt {s n} (h : s.reader = some n) (hw : s.tty.Waits) :
      TtyStep s .interrupt { s with reader := none }
  | finish {s n} (h : s.reader = some n) (hw : ¬ s.tty.Waits) :
      TtyStep s .finish { s with
        tty := (s.tty.deliver n).2
        reader := none
        results := s.results ++ [(n, (s.tty.deliver n).1)] }

def terminal (tio : Termios) : System TtyState TtyAction where
  init s := s = { tty := { tio := tio } }
  step := TtyStep

end MyOS.Drivers

/-! The terminal in canonical mode returns what a line editor makes of the characters. -/

namespace MyOS.Drivers

open Library

/-- A line editor without a buffer: the line that is not finished, and the escape sequence. -/
structure Editor where
  line : List UInt8 := []
  esc : EscState := .none

/-- The editor after a character, and the chunk that it hands over: a line with its newline, a part of a
line without, or nothing for the end of the file. -/
def Editor.key (t : Termios) (e : Editor) (c : UInt8) : Editor × Option (List UInt8) :=
  if e.esc ≠ .none ∨ c = 0x1b then ({ e with esc := e.esc.next c }, none)
  else
    let c := t.translate c
    if c = t.verase ∨ c = 0x08 then ({ e with line := e.line.dropLast }, none)
    else if c = t.vkill ∨ t.IsSignal c then ({ e with line := [] }, none)
    else if c = t.veof then ({ e with line := [] }, some e.line)
    else if c = 0x0a then ({ e with line := [] }, some (e.line ++ [0x0a]))
    else if (32 ≤ c ∨ c = 0x09) ∧ e.line.length < lineMax - 1 then
      ({ e with line := e.line ++ [c] }, none)
    else (e, none)

def edit (t : Termios) (cs : List UInt8) : Editor × List (List UInt8) :=
  cs.foldl (fun r c => ((r.1.key t c).1, r.2 ++ (r.1.key t c).2.toList)) ({}, [])

namespace Tty

def pending (s : Tty) : List (List UInt8) :=
  if s.eof then [[]]
  else if s.rpos < s.ready then [Bytes.load s.line s.rpos (s.ready - s.rpos)]
  else []

structure Collects (s : Tty) (e : Editor) : Prop where
  rpos : s.rpos = 0
  ready : s.ready = 0
  eof : s.eof = false
  line : Bytes.load s.line 0 s.len = e.line
  room : s.len ≤ lineMax - 1
  esc : s.escState = e.esc

structure Offers (s : Tty) (e : Editor) : Prop where
  line : e.line = []
  bound : s.len ≤ lineMax
  ready : s.ready = s.len
  rpos : if s.eof then s.rpos = 0 ∧ s.len = 0 else s.rpos < s.ready
  esc : s.escState = e.esc

variable {s : Tty} {e : Editor} {c : UInt8}

lemma write_eq (s : Tty) (l : List UInt8) : ∃ sh, s.write l = { s with shown := sh } := by
  unfold write
  split_ifs
  · exact ⟨_, rfl⟩
  · exact ⟨s.shown, rfl⟩

lemma eraseOne_eq (h : s.ready ≤ s.len) :
    ∃ sh, s.eraseOne = { s with len := max s.ready (s.len - 1), shown := sh } := by
  unfold eraseOne
  by_cases hl : s.len = s.ready
  · have hmax : max s.ready (s.len - 1) = s.len := by omega
    exact ⟨s.shown, by rw [if_pos hl, hmax]⟩
  · have hmax : max s.ready (s.len - 1) = s.len - 1 := by omega
    rw [if_neg hl, hmax]
    dsimp only
    split_ifs
    · obtain ⟨sh, hsh⟩ := write_eq { s with len := s.len - 1 } [0x08, 0x20, 0x08]
      exact ⟨sh, hsh⟩
    · exact ⟨s.shown, rfl⟩

lemma canonInput_tio (s : Tty) (c : UInt8) : (s.canonInput c).tio = s.tio := by
  have hwrite : ∀ (s : Tty) (l : List UInt8), (s.write l).tio = s.tio := by
    intro s l
    obtain ⟨sh, hs⟩ := s.write_eq l
    rw [hs]
  have herase : ∀ s : Tty, s.eraseOne.tio = s.tio := by
    intro s
    unfold eraseOne
    dsimp only
    split_ifs
    · rfl
    · exact hwrite _ _
    · rfl
  have hkill : ∀ k (s : Tty), (eraseOne^[k] s).tio = s.tio := by
    intro k
    induction k with
    | zero => exact fun s => rfl
    | succ k ih => exact fun s => (ih s.eraseOne).trans (herase s)
  unfold canonInput
  dsimp only
  split_ifs <;> first | rfl | exact herase s | exact hkill _ s | exact hwrite _ _

lemma eraseOne_iterate (k : ℕ) (h : s.ready + k = s.len) :
    ∃ sh, eraseOne^[k] s = { s with len := s.ready, shown := sh } := by
  induction k generalizing s with
  | zero =>
    obtain ⟨tio, line, len, ready, rpos, eof, st, shown⟩ := s
    obtain rfl : ready = len := h
    exact ⟨shown, rfl⟩
  | succ k ih =>
    obtain ⟨sh, hs⟩ := eraseOne_eq (s := s) (by omega)
    have hmax : max s.ready (s.len - 1) = s.ready + k := by omega
    rw [Function.iterate_succ_apply, hs, hmax]
    obtain ⟨sh', hs'⟩ := ih (s := { s with len := s.ready + k, shown := sh }) rfl
    exact ⟨sh', hs'⟩

namespace Collects

lemma length (h : s.Collects e) : e.line.length = s.len := by
  rw [← h.line, Bytes.length_load]

lemma take (h : s.Collects e) {n : ℕ} (hn : n ≤ s.len) (sh : List UInt8) :
    Collects { s with len := n, ready := 0, shown := sh } ⟨e.line.take n, s.escState⟩ := by
  refine ⟨h.rpos, rfl, h.eof, ?_, hn.trans h.room, rfl⟩
  change Bytes.load s.line 0 n = e.line.take n
  rw [← h.line, Bytes.load_take hn]

lemma put_line (h : s.Collects e) (c : UInt8) :
    Bytes.load (s.put c).line 0 (s.put c).len = e.line ++ [c] := by
  have hold : Bytes.load (s.put c).line 0 s.len = e.line := by
    rw [← h.line]
    apply Bytes.load_congr
    intro x _ hx
    exact Function.update_of_ne (by omega) _ _
  have hnew : Bytes.load (s.put c).line (0 + s.len) 1 = [c] := by
    simp [Bytes.load, put]
  change Bytes.load (s.put c).line 0 (s.len + 1) = e.line ++ [c]
  rw [← Bytes.load_append, hold, hnew]

lemma pending_nil (h : s.Collects e) : s.pending = [] := by
  simp [pending, h.eof, h.rpos, h.ready]

lemma canonInput (h : s.Collects e) (c : UInt8) :
    match (e.key s.tio c).2 with
    | none => (s.canonInput c).Collects (e.key s.tio c).1
    | some chunk => (s.canonInput c).Offers (e.key s.tio c).1 ∧ (s.canonInput c).pending = [chunk] := by
  have hlen := h.length
  have hroom : s.len ≤ 1023 := h.room
  unfold Tty.canonInput Editor.key
  rw [← h.esc]
  by_cases hesc : s.escState ≠ .none ∨ c = 0x1b
  · rw [if_pos hesc, if_pos hesc]
    exact ⟨h.rpos, h.ready, h.eof, h.line, h.room, rfl⟩
  rw [if_neg hesc, if_neg hesc]
  generalize s.tio.translate c = c
  dsimp only
  by_cases herase : c = s.tio.verase ∨ c = 0x08
  · rw [if_pos herase, if_pos herase]
    obtain ⟨sh, hs⟩ := eraseOne_eq (s := s) (by rw [h.ready]; exact Nat.zero_le _)
    rw [h.ready, Nat.zero_max] at hs
    rw [hs, List.dropLast_eq_take, hlen]
    exact h.take (Nat.sub_le _ _) sh
  rw [if_neg herase, if_neg herase]
  by_cases hkill : c = s.tio.vkill
  · rw [if_pos hkill, if_pos (.inl hkill)]
    obtain ⟨sh, hs⟩ := eraseOne_iterate (s := s) (s.len - s.ready) (by have := h.ready; omega)
    rw [hs, h.ready]
    exact h.take (Nat.zero_le _) sh
  rw [if_neg hkill]
  by_cases hsig : s.tio.IsSignal c
  · rw [if_pos hsig, if_pos (.inr hsig), h.ready]
    exact h.take (Nat.zero_le _) s.shown
  rw [if_neg hsig, if_neg (not_or.2 ⟨hkill, hsig⟩)]
  by_cases heof : c = s.tio.veof
  · rw [if_pos heof, if_pos heof, h.ready]
    dsimp only
    by_cases hempty : s.len = 0
    · have hline : e.line = [] := List.eq_nil_of_length_eq_zero (hlen.trans hempty)
      refine ⟨⟨rfl, by simp only [hempty]; decide, rfl, ?_, rfl⟩, ?_⟩
      · simp [hempty, h.rpos]
      · simp [pending, hempty, hline]
    · refine ⟨⟨rfl, h.room.trans (Nat.sub_le _ _), rfl, ?_, rfl⟩, ?_⟩
      · simp only [hempty, if_false, h.eof, h.rpos]
        simpa using Nat.pos_of_ne_zero hempty
      · simp only [pending, hempty, if_false, h.eof, h.rpos, Bool.false_eq_true,
          Nat.pos_of_ne_zero hempty, if_true, Nat.sub_zero, h.line]
  rw [if_neg heof, if_neg heof]
  by_cases hnl : c = 0x0a
  · have hlt : s.len < lineMax := lt_of_le_of_lt h.room (by decide)
    rw [if_pos hnl, if_pos hnl, if_pos hlt]
    dsimp only
    obtain ⟨sh, hs⟩ := write_eq { s.put 0x0a with ready := (s.put 0x0a).len } [0x0a]
    rw [hs]
    have heof' : (s.put 0x0a).eof = false := h.eof
    have hrpos : (s.put 0x0a).rpos = 0 := h.rpos
    have hpos : 0 < (s.put 0x0a).len := Nat.succ_pos _
    refine ⟨⟨rfl, hlt, rfl, ?_, rfl⟩, ?_⟩
    · simp only [heof', hrpos]
      simpa using hpos
    · simp only [pending, heof', hrpos, Bool.false_eq_true, if_false, hpos, if_true, Nat.sub_zero,
        h.put_line]
  rw [if_neg hnl, if_neg hnl, hlen]
  by_cases hchar : 32 ≤ c ∨ c = 0x09
  · rw [if_pos hchar]
    by_cases hfit : s.len < lineMax - 1
    · rw [if_pos hfit, if_pos ⟨hchar, hfit⟩]
      obtain ⟨sh, hs⟩ := write_eq (s.put c) [c]
      rw [hs]
      exact ⟨h.rpos, h.ready, h.eof, h.put_line c, hfit, rfl⟩
    · rw [if_neg hfit, if_neg fun hc => hfit hc.2]
      exact ⟨h.rpos, h.ready, h.eof, h.line, h.room, h.esc⟩
  · rw [if_neg hchar, if_neg fun hc => hchar hc.1]
    exact ⟨h.rpos, h.ready, h.eof, h.line, h.room, h.esc⟩

end Collects

namespace Offers

lemma pending_eq (h : s.Offers e) : ∃ chunk, s.pending = [chunk] := by
  have hr := h.rpos
  unfold pending
  split_ifs at hr ⊢ <;> exact ⟨_, rfl⟩

lemma deliver (h : s.Offers e) {chunk : List UInt8} (hc : s.pending = [chunk]) {n : ℕ} (hn : 0 < n) :
    (s.deliver n).1 = chunk.take n ∧ (s.deliver n).2.pending = Chunks.advance n chunk [] ∧
      (s.deliver n).2.tio = s.tio ∧
      ((s.deliver n).2.Collects e ∨ (s.deliver n).2.Offers e ∧ (s.deliver n).2.eof = false) := by
  have hready := h.ready
  have hr := h.rpos
  unfold Tty.deliver
  cases heof : s.eof with
  | true =>
    rw [if_pos heof] at hr
    obtain ⟨hrpos, hlen⟩ := hr
    have hnil : chunk = [] := by simpa [pending, heof] using hc.symm
    rw [if_pos (by omega)]
    refine ⟨by simp [hnil], ?_, rfl, .inl ⟨hrpos, hready.trans hlen, rfl, ?_, ?_, h.esc⟩⟩
    · simp [pending, hnil, Chunks.advance, hrpos, hready, hlen]
    · simp [hlen, h.line, Bytes.load]
    · simp [hlen]
  | false =>
    rw [if_neg (by simp [heof])] at hr
    have hchunk : Bytes.load s.line s.rpos (s.ready - s.rpos) = chunk := by
      simpa [pending, heof, hr] using hc
    have hclen : chunk.length = s.ready - s.rpos := by rw [← hchunk, Bytes.length_load]
    rw [if_neg hr.ne]
    have htake : Bytes.load s.line s.rpos (min n (s.ready - s.rpos)) = chunk.take n := by
      rw [← Bytes.load_take (min_le_right _ _), hchunk, ← hclen, ← List.take_eq_take_min]
    dsimp only
    refine ⟨htake, ?_⟩
    by_cases hall : s.rpos + min n (s.ready - s.rpos) = s.ready
    · rw [if_pos hall]
      have hadv : Chunks.advance n chunk [] = [] := if_neg (by omega)
      refine ⟨?_, rfl, .inl ⟨rfl, rfl, rfl, ?_, ?_, h.esc⟩⟩
      · simp [pending, hadv]
      · simp [hready, h.line, Bytes.load]
      · simp [hready]
    · rw [if_neg hall]
      have hlt : n < s.ready - s.rpos := by omega
      rw [min_eq_left hlt.le]
      have hadv : Chunks.advance n chunk [] = [chunk.drop n] := if_pos (by omega)
      refine ⟨?_, rfl, .inr ⟨⟨h.line, h.bound, hready, ?_, h.esc⟩, rfl⟩⟩
      · have hlt' : s.rpos + n < s.ready := by omega
        have hdrop : Bytes.load s.line (s.rpos + n) (s.ready - (s.rpos + n)) = chunk.drop n := by
          rw [← hchunk, Bytes.load_drop hlt.le, Nat.sub_sub]
        simp [pending, hlt', hadv, hdrop]
      · simp only [Bool.false_eq_true, if_false]
        omega

end Offers

end Tty

namespace TtyState

def lengths (s : TtyState) : List ℕ := s.results.map Prod.fst
def returned (s : TtyState) : List (List UInt8) := s.results.map Prod.snd

structure Canonical (tio : Termios) (s : TtyState) : Prop where
  rpos_le : s.tty.rpos ≤ s.tty.ready
  ready_le : s.tty.ready ≤ s.tty.len
  len_le : s.tty.len ≤ lineMax
  reads : Chunks.serve (edit tio s.typed).2 s.lengths = (s.returned, s.tty.pending)
  bytes : s.returned.flatten ++ s.tty.pending.flatten = (edit tio s.typed).2.flatten
  ends : s.returned.count [] + s.tty.pending.count [] = (edit tio s.typed).2.count []

structure Edited (tio : Termios) (s : TtyState) : Prop where
  settings : s.tty.tio = tio
  shape : s.tty.Collects (edit tio s.typed).1 ∨ s.tty.Offers (edit tio s.typed).1 ∧
    (s.tty.eof = true → s.reader ≠ none)
  reads : Chunks.serve (edit tio s.typed).2 s.lengths = (s.returned, s.tty.pending)
  positive : ∀ n ∈ s.lengths ++ s.reader.toList, 0 < n

variable {tio : Termios} {s t : TtyState} {a : TtyAction}

lemma edit_append (tio : Termios) (cs : List UInt8) (c : UInt8) : edit tio (cs ++ [c]) =
    (((edit tio cs).1.key tio c).1, (edit tio cs).2 ++ ((edit tio cs).1.key tio c).2.toList) := by
  rw [edit, List.foldl_append]
  rfl

namespace Edited

lemma start : Edited tio { tty := { tio := tio } } where
  settings := rfl
  shape := .inl ⟨rfl, rfl, rfl, rfl, Nat.zero_le _, rfl⟩
  reads := rfl
  positive := by simp [lengths]

lemma length_served (h : Edited tio s) :
    (Chunks.serve (edit tio s.typed).2 s.lengths).1.length = s.lengths.length := by
  rw [h.reads]
  simp [lengths, returned]

lemma collects (h : Edited tio s) (hw : s.tty.Waits) : s.tty.Collects (edit tio s.typed).1 := by
  rcases h.shape with hc | ⟨ho, -⟩
  · exact hc
  · have hr := ho.rpos
    rw [if_neg (by simp [hw.2]), hw.1] at hr
    exact absurd hr (lt_irrefl _)

lemma offers (h : Edited tio s) (hw : ¬ s.tty.Waits) : s.tty.Offers (edit tio s.typed).1 := by
  rcases h.shape with hc | ⟨ho, -⟩
  · exact absurd ⟨hc.rpos.trans hc.ready.symm, hc.eof⟩ hw
  · exact ho

lemma key (h : Edited tio s) {n : ℕ} (hr : s.reader = some n) (hw : s.tty.Waits) (c : UInt8) :
    Edited tio { s with tty := s.tty.canonInput c, typed := s.typed ++ [c] } := by
  have hcol := h.collects hw
  have hkey := hcol.canonInput c
  rw [h.settings] at hkey
  have hreads := h.reads
  rw [hcol.pending_nil] at hreads
  have hedit := edit_append tio s.typed c
  refine ⟨(s.tty.canonInput_tio c).trans h.settings, ?_, ?_, h.positive⟩
  · cases hk : ((edit tio s.typed).1.key tio c).2 with
    | none =>
      rw [hk] at hkey
      exact .inl (by rw [hedit]; exact hkey)
    | some chunk =>
      rw [hk] at hkey
      exact .inr ⟨by rw [hedit]; exact hkey.1, fun _ => by simp [hr]⟩
  · cases hk : ((edit tio s.typed).1.key tio c).2 with
    | none =>
      rw [hk] at hkey
      rw [hedit, hk, hkey.pending_nil, Option.toList_none, List.append_nil]
      exact hreads
    | some chunk =>
      rw [hk] at hkey
      have happ := Chunks.serve_append_chunk (c := chunk) h.length_served
      rw [hreads, List.nil_append] at happ
      rw [hedit, hk, hkey.2]
      exact happ

lemma finish (h : Edited tio s) {n : ℕ} (hr : s.reader = some n) (hw : ¬ s.tty.Waits) :
    Edited tio { s with
      tty := (s.tty.deliver n).2
      reader := none
      results := s.results ++ [(n, (s.tty.deliver n).1)] } := by
  have ho := h.offers hw
  obtain ⟨chunk, hc⟩ := ho.pending_eq
  have hn : 0 < n := h.positive n (by simp [hr])
  obtain ⟨hbytes, hleft, htio, hshape⟩ := ho.deliver hc hn
  refine ⟨htio.trans h.settings, ?_, ?_, ?_⟩
  · rcases hshape with hcol | ⟨hoff, heof⟩
    · exact .inl hcol
    · exact .inr ⟨hoff, fun he => by simp [heof] at he⟩
  · have hread := Chunks.serve_append_read (n := n) h.length_served
      ((congrArg Prod.snd h.reads).trans hc)
    rw [h.reads] at hread
    simpa [lengths, returned, hbytes, hleft] using hread
  · intro m hm
    apply h.positive m
    simpa [lengths, hr] using hm

lemma step (h : Edited tio s) (hst : TtyStep s a t) : Edited tio t := by
  cases hst with
  | read hr hn =>
    refine ⟨h.settings, ?_, h.reads, ?_⟩
    · rcases h.shape with hc | ⟨ho, he⟩
      · exact .inl hc
      · exact .inr ⟨ho, fun _ => by simp⟩
    · intro m hm
      rcases List.mem_append.1 hm with hm | hm
      · exact h.positive m (List.mem_append_left _ hm)
      · rwa [List.mem_singleton.1 hm]
  | key hr hw => exact h.key hr hw _
  | interrupt hr hw =>
    refine ⟨h.settings, .inl (h.collects hw), h.reads, fun m hm => h.positive m ?_⟩
    exact List.mem_append_left _ (by simpa [lengths] using hm)
  | finish hr hw => exact h.finish hr hw

end Edited

theorem reachable_canonical (h : (terminal tio).Reachable s) : s.Canonical tio := by
  have hinv : Edited tio s := by
    refine h.invariant ?_ fun s a t hi hst => hi.step hst
    intro s hs
    rw [show s = _ from hs]
    exact .start
  have hpos : ∀ n ∈ s.lengths, 0 < n := fun n hn => hinv.positive n (List.mem_append_left _ hn)
  have hbytes := Chunks.serve_flatten (edit tio s.typed).2 s.lengths
  have hends := Chunks.serve_count_nil (edit tio s.typed).2 hpos
  rw [hinv.reads] at hbytes hends
  rcases hinv.shape with hc | ⟨ho, -⟩
  · refine ⟨?_, ?_, ?_, hinv.reads, hbytes, hends⟩
    · rw [hc.rpos, hc.ready]
    · rw [hc.ready]
      exact Nat.zero_le _
    · exact hc.room.trans (by decide)
  · refine ⟨?_, ho.ready.le, ho.bound, hinv.reads, hbytes, hends⟩
    have hr := ho.rpos
    split_ifs at hr
    · rw [hr.1]
      exact Nat.zero_le _
    · exact hr.le

theorem reachable_canonical_line : ∃ s : TtyState, s.returned = [[0x61], [0x0a]] ∧ s.Canonical {} :=
  ⟨_, rfl, reachable_canonical
    (.step .finish
      (.step (.read 5)
        (.step .finish
          (.step (.key 0x0a)
            (.step (.key 0x61)
              (.step (.read 1) (.init rfl) (.read rfl (by decide)))
              (.key (n := 1) rfl (by decide)))
            (.key (n := 1) rfl (by decide)))
          (.finish (n := 1) rfl (by decide)))
        (.read rfl (by decide)))
      (.finish (n := 5) rfl (by decide)))⟩

end TtyState

end MyOS.Drivers
