import MyOS.Library.Bytes
import MyOS.Library.Lines

/-! Streams of the C library on a regular file: one buffer for both directions. -/

namespace MyOS.User

open Library

def bufSize : ℕ := 4096

structure FileAt where
  data : ℕ → UInt8
  size : ℕ
  pos : ℕ

namespace FileAt

variable (d : FileAt)

def contents : List UInt8 := Bytes.load d.data 0 d.size

def ahead (n : ℕ) : List UInt8 := Bytes.load d.data d.pos (min n (d.size - d.pos))

def put (l : List UInt8) : FileAt where
  data := Bytes.store d.data d.pos l
  size := max d.size (d.pos + l.length)
  pos := d.pos + l.length

def skip (n : ℕ) : FileAt := { d with pos := d.pos + n }

end FileAt

/-- Whether the descriptor is open for reading and for writing, and for each call of `read` and `write` the number of
bytes, less one, that it transfers if there are so many; `none` is an error. -/
structure Descriptor where
  canRead : Bool
  canWrite : Bool
  transfer : ℕ → Option ℕ

/-- `FILE` and the open file behind it, which the call with the number `call` is next to use. `file.pos` is the offset in
the kernel. -/
structure Stream where
  file : FileAt
  call : ℕ := 0
  buf : ℕ → UInt8 := fun _ => 0
  rpos : ℕ := 0
  rlen : ℕ := 0
  wlen : ℕ := 0
  eof : Bool := false

namespace Stream

variable (o : Descriptor) (s : Stream)

def sysRead (n : ℕ) : Option (List UInt8 × Stream) :=
  if o.canRead then
    (o.transfer s.call).map fun k =>
      let l := s.file.ahead (min (k + 1) n)
      (l, { s with file := s.file.skip l.length, call := s.call + 1 })
  else none

def sysWrite (l : List UInt8) : Option (ℕ × Stream) :=
  if o.canWrite then
    (o.transfer s.call).map fun k =>
      ((l.take (k + 1)).length, { s with file := s.file.put (l.take (k + 1)), call := s.call + 1 })
  else none

def seekBack (n : ℕ) : Option Stream :=
  if n ≤ s.file.pos then some { s with file := { s.file with pos := s.file.pos - n } } else none

lemma sysWrite_pos {l : List UInt8} {r : ℕ × Stream} (h : s.sysWrite o l = some r) (hl : l ≠ []) : 0 < r.1 := by
  rw [sysWrite] at h
  split_ifs at h
  obtain ⟨k, -, rfl⟩ := Option.map_eq_some_iff.1 h
  have := List.length_pos_iff.2 hl
  show 0 < (l.take (k + 1)).length
  rw [List.length_take]
  omega

/-- The loop that writes until all is written; `none` from here on means that a system call has failed. -/
def writeAll (l : List UInt8) (s : Stream) : Option Stream :=
  if _hl : l = [] then some s
  else
    match _h : s.sysWrite o l with
    | none => none
    | some (n, s) => writeAll (l.drop n) s
termination_by l.length
decreasing_by
  have hn : 0 < n := sysWrite_pos o _ _h _hl
  have hpos := List.length_pos_iff.2 _hl
  rw [List.length_drop]
  omega

def flushWrite : Option Stream :=
  (s.writeAll o (Bytes.load s.buf 0 s.wlen)).map fun s => { s with wlen := 0 }

def dropRead : Option Stream :=
  (if s.rpos < s.rlen then s.seekBack (s.rlen - s.rpos) else some s).map fun s => { s with rpos := 0, rlen := 0 }

def fflush : Option Stream :=
  (if s.rlen ≠ 0 then s.dropRead else some s).bind fun s => if s.wlen ≠ 0 then s.flushWrite o else some s

def putByte (c : UInt8) : Option Stream :=
  (if s.rlen ≠ 0 then s.dropRead else some s).bind fun s =>
    (if s.wlen = bufSize then s.flushWrite o else some s).bind fun s =>
      let s := { s with buf := Bytes.store s.buf s.wlen [c], wlen := s.wlen + 1 }
      if s.wlen = bufSize then s.flushWrite o else some s

def fwrite (l : List UInt8) : Option Stream :=
  if l = [] then some s
  else if bufSize ≤ l.length then (s.fflush o).bind fun s => s.writeAll o l
  else l.foldlM (fun s c => s.putByte o c) s

def refill : Option (Bool × Stream) :=
  if s.eof then some (false, s)
  else
    (if s.wlen ≠ 0 then s.flushWrite o else some s).bind fun s =>
      (s.sysRead o bufSize).map fun (l, s) =>
        if l = [] then (false, { s with eof := true })
        else (true, { s with buf := Bytes.store s.buf 0 l, rpos := 0, rlen := l.length })

/-- `fgetc`; `none` inside is `EOF`. -/
def fgetc : Option (Option UInt8 × Stream) :=
  if s.rpos < s.rlen then some (some (s.buf s.rpos), { s with rpos := s.rpos + 1 })
  else
    (s.refill o).map fun (more, s) =>
      if more then (some (s.buf s.rpos), { s with rpos := s.rpos + 1 }) else (none, s)

def fgetsLoop : ℕ → Stream → Option (List UInt8 × Stream)
  | 0, s => some ([], s)
  | room + 1, s =>
    match s.fgetc o with
    | none => none
    | some (none, s) => some ([], s)
    | some (some c, s) => if c = 10 then some ([c], s) else (fgetsLoop room s).map fun (l, s) => (c :: l, s)

/-- `fgets`; `none` inside is a null pointer. -/
def fgets (size : ℕ) : Option (Option (List UInt8) × Stream) :=
  (fgetsLoop o (size - 1) s).map fun (l, s) => (if l = [] then none else some l, s)

lemma refill_more {r : Stream} (h : s.refill o = some (true, r)) : r.rpos < r.rlen := by
  rw [refill] at h
  split_ifs at h
  · cases (Prod.mk.inj (Option.some.inj h)).1
  all_goals
    obtain ⟨s₁, -, h⟩ := Option.bind_eq_some_iff.1 h
    obtain ⟨⟨l, s₂⟩, -, h⟩ := Option.map_eq_some_iff.1 h
    dsimp only at h
    split_ifs at h with hl
    · cases (Prod.mk.inj h).1
    · rw [← (Prod.mk.inj h).2]
      exact List.length_pos_iff.2 hl

def fread (left : ℕ) (s : Stream) : Option (List UInt8 × Stream) :=
  if _hleft : left = 0 then some ([], s)
  else if _hbuf : s.rpos < s.rlen then
    let k := min (s.rlen - s.rpos) left
    (fread (left - k) { s with rpos := s.rpos + k }).map fun (l, r) => (Bytes.load s.buf s.rpos k ++ l, r)
  else if bufSize ≤ left then
    match s.sysRead o left with
    | none => none
    | some (l, r) =>
      if _hl : l = [] then some ([], { r with eof := true })
      else (fread (left - l.length) r).map fun (l', r) => (l ++ l', r)
  else
    match _h : s.refill o with
    | none => none
    | some (false, r) => some ([], r)
    | some (true, r) => fread left r
termination_by (left, if s.rpos < s.rlen then 0 else 1)
decreasing_by
  · refine Prod.Lex.left _ _ ?_
    omega
  · refine Prod.Lex.left _ _ ?_
    have := List.length_pos_iff.2 _hl
    omega
  · refine Prod.Lex.right _ ?_
    rw [if_pos (s.refill_more o _h), if_neg _hbuf]
    exact Nat.one_pos

def fclose : Option FileAt := (s.fflush o).map Stream.file

end Stream

inductive Mode
  | r | w | rPlus | wPlus
  deriving DecidableEq

def Mode.descriptor (m : Mode) (transfer : ℕ → Option ℕ) : Descriptor := ⟨m ≠ .w, m ≠ .r, transfer⟩

def Mode.file (m : Mode) (data : ℕ → UInt8) (size : ℕ) : FileAt := ⟨data, if m = .w ∨ m = .wPlus then 0 else size, 0⟩

def fopen (m : Mode) (data : ℕ → UInt8) (size : ℕ) : Stream := { file := m.file data size }

inductive StreamOp
  | fputc (c : UInt8)
  | fputs (l : List UInt8)
  | fwrite (l : List UInt8)
  | fgetc
  | fgets (size : ℕ)
  | fread (n : ℕ)
  | fflush

inductive Answer
  | done
  | byte (c : Option UInt8)
  | line (l : Option (List UInt8))
  | bytes (l : List UInt8)
  deriving DecidableEq

def Stream.step (o : Descriptor) (s : Stream) : StreamOp → Option (Answer × Stream)
  | .fputc c => (s.putByte o c).map (.done, ·)
  | .fputs l => (s.fwrite o l).map (.done, ·)
  | .fwrite l => (s.fwrite o l).map (.done, ·)
  | .fgetc => (s.fgetc o).map fun (c, s) => (.byte c, s)
  | .fgets size => (s.fgets o size).map fun (l, s) => (.line l, s)
  | .fread n => (s.fread o n).map fun (l, s) => (.bytes l, s)
  | .fflush => (s.fflush o).map (.done, ·)

def Stream.run (o : Descriptor) : List StreamOp → Stream → Option (List Answer × FileAt)
  | [], s => (s.fclose o).map ([], ·)
  | op :: ops, s => (s.step o op).bind fun (a, s) => (run o ops s).map fun (as, d) => (a :: as, d)

def FileAt.step (d : FileAt) : StreamOp → Answer × FileAt
  | .fputc c => (.done, d.put [c])
  | .fputs l => (.done, d.put l)
  | .fwrite l => (.done, d.put l)
  | .fgetc => (.byte (d.ahead 1).head?, d.skip (d.ahead 1).length)
  | .fgets size =>
    let l := takeLine 10 (d.ahead (size - 1))
    (.line (if l = [] then none else some l), d.skip l.length)
  | .fread n => (.bytes (d.ahead n), d.skip (d.ahead n).length)
  | .fflush => (.done, d)

def FileAt.run : List StreamOp → FileAt → List Answer × FileAt
  | [], d => ([], d)
  | op :: ops, d => ((d.step op).1 :: (run ops (d.step op).2).1, (run ops (d.step op).2).2)

/-- A block that is read past the buffer finds nothing to be written in it, or the end of the file. -/
def Stream.Careful (s : Stream) : StreamOp → Prop
  | .fread n => s.wlen = 0 ∨ n < bufSize ∨ s.file.size ≤ s.file.pos
  | _ => True

def Stream.AllCareful (o : Descriptor) : List StreamOp → Stream → Prop
  | [], _ => True
  | op :: ops, s => s.Careful op ∧ ∀ a s', s.step o op = some (a, s') → AllCareful o ops s'

end MyOS.User
