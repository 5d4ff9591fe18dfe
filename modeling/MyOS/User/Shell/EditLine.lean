import MyOS.Library.Buffer
import MyOS.Library.Arithmetic
import MyOS.User.Shell.ReadLine

/-! `edit_line`: the line that is typed at a terminal, with the cursor, the history and Tab. -/

namespace MyOS.User.Shell

open Library Library.Buffer

def historyMax : ℕ := 64
def complMax : ℕ := 128
def nameMax : ℕ := 255
def pathMax : ℕ := 1024

structure Str where
  bytes : List UInt8
  noNul : 0 ∉ bytes
  deriving DecidableEq

/-- The string at the beginning of an array; `none` when it has no end there. -/
def Str.ofArray (b : List UInt8) : Option Str :=
  if 0 ∈ b then some ⟨b.takeWhile (· ≠ 0), fun h => by simpa using List.mem_takeWhile_imp h⟩ else none

structure DirEntry where
  name : Str
  short : name.bytes.length ≤ nameMax
  isDir : Bool

abbrev Directories := List UInt8 → Option (List DirEntry)

/-- What one `read` gives, whether the handler of SIGINT has run by then, and the directories of that time. -/
structure Input where
  got : Got
  sigint : Bool
  directories : Directories

structure Line where
  buf : List UInt8
  len : ℕ := 0
  pos : ℕ := 0
  hist : ℤ
  saved : List UInt8 := List.replicate lineMax 0
  gotSigint : Bool := false

inductive Turn (σ : Type)
  | again (s : σ) (gs : List Input)
  | returns (result : ℤ) (s : σ)

def historyAdd (history : List Str) (line : Str) : List Str :=
  if line.bytes = [] ∨ history.getLast? = some line then history
  else if history.length = historyMax then history.tail ++ [line]
  else history ++ [line]

/-! Tab -/

def strchr (s : List UInt8) (c : UInt8) : Bool := c = 0 || s.contains c

def breaks : List UInt8 := [32, 124, 59, 38, 60, 62]

def pipeline : List UInt8 := [124, 59, 38]

def slash : UInt8 := 47

def builtins : List (List UInt8) :=
  [['c', 'd'], ['p', 'w', 'd'], ['e', 'x', 'i', 't'], ['h', 'e', 'l', 'p'], ['j', 'o', 'b', 's'], ['f', 'g'],
    ['b', 'g'], ['w', 'a', 'i', 't'], ['s', 'e', 't'], ['s', 'o', 'u', 'r', 'c', 'e']].map
      (·.map fun c => UInt8.ofNat c.toNat)

local instance lawfulBEq_name : LawfulBEq (List UInt8) := inferInstance

def addCandidate (list : List (List UInt8)) (name : List UInt8) : List (List UInt8) :=
  if name ∈ list then list else if list.length < complMax then list ++ [name] else list

def part (word : List UInt8) : List UInt8 := word.rtakeWhile (· != slash)

def dir (firstWord : Bool) (word : List UInt8) : List UInt8 :=
  if slash ∈ word then
    let k := word.length - (part word).length - 1
    (word.take (if k = 0 then 1 else k)).take (pathMax - 1)
  else if firstWord then [slash, 98, 105, 110] else [46]

def DirEntry.candidate (e : DirEntry) : List UInt8 :=
  (e.name.bytes ++ if e.isDir then [slash] else []).take (nameMax + 1)

def DirEntry.offered (e : DirEntry) (part : List UInt8) : Bool :=
  !(e.name.bytes.head? = some 46 && part.head? != some 46) && part.isPrefixOf e.name.bytes

def candidates (firstWord : Bool) (word : List UInt8) (directories : Directories) : List (List UInt8) :=
  let list := if firstWord && !word.contains slash then builtins.filter (part word).isPrefixOf else []
  let names := ((directories (dir firstWord word)).getD []).filter fun e => e.offered (part word)
  (names.map DirEntry.candidate).foldl addCandidate (list.foldl addCandidate [])

def inArray (n : ℕ) (l : List UInt8) : Option (List UInt8) := if l.length ≤ n then some l else none

def addition (plen : ℕ) : List (List UInt8) → Option (List UInt8)
  | [] => some []
  | first :: rest =>
    let common := rest.foldl (fun k name => agree k name first) first.length
    let alen := sub64 common plen
    (load (first ++ [0]) plen alen).bind fun l => (inArray (nameMax + 2) l).bind fun add =>
      if rest = [] ∧ add.getLast? ≠ some slash then inArray (nameMax + 2) (add ++ [32]) else some add

namespace Line

def refresh (s : Line) : Option Line := (load s.buf 0 s.len).map fun _ => s

def wordAt (s : Line) : Option (Bool × ℕ × ℕ) :=
  (backWhile (fun c => !strchr breaks c) s.buf s.pos).bind fun start =>
    (backWhile (· == 32) s.buf start).bind fun ws =>
      (if ws = 0 then some true else (s.buf[ws - 1]?).map (strchr pipeline)).map fun firstWord =>
        (firstWord, start, sub64 s.pos start)

def insertAdd (s : Line) (size : ℕ) (add : List UInt8) : Option Line :=
  if s.len + add.length < size then
    (move s.buf (s.pos + add.length) s.pos (sub64 s.len s.pos)).bind fun b =>
      (store b s.pos add).map fun b => { s with buf := b, len := s.len + add.length, pos := s.pos + add.length }
  else some s

def complete (s : Line) (size : ℕ) (directories : Directories) : Option Line :=
  s.wordAt.bind fun (firstWord, start, wlen) =>
    if wlen ≥ pathMax then some s
    else (load s.buf start wlen).bind fun word => (Str.ofArray (word ++ [0])).bind fun word =>
      let list := candidates firstWord word.bytes directories
      if list = [] then some s
      else (addition (part word.bytes).length list).bind fun add => (s.insertAdd size add).bind refresh

/-! The keys -/

def deleteAt (s : Line) (i : ℕ) : Option Line :=
  (move s.buf i (i + 1) (sub64 (sub64 s.len i) 1)).map fun b => { s with buf := b, len := sub64 s.len 1 }

def deleteHere (s : Line) : Option Line := if s.pos < s.len then s.deleteAt s.pos else some s

def backspace (s : Line) : Option Line :=
  if s.pos > 0 then { s with pos := s.pos - 1 }.deleteAt (s.pos - 1) else some s

def killToStart (s : Line) : Option Line :=
  (move s.buf 0 s.pos (sub64 s.len s.pos)).map fun b => { s with buf := b, len := sub64 s.len s.pos, pos := 0 }

def killToEnd (s : Line) : Line := { s with len := s.pos }

def killWord (s : Line) : Option Line :=
  (backWhile (· == 32) s.buf s.pos).bind fun p => (backWhile (· != 32) s.buf p).bind fun p =>
    (move s.buf p s.pos (sub64 s.len s.pos)).map fun b =>
      { s with buf := b, len := sub64 s.len (sub64 s.pos p), pos := p }

def toStart (s : Line) : Line := { s with pos := 0 }

def toEnd (s : Line) : Line := { s with pos := s.len }

def insertChar (s : Line) (size : ℕ) (c : UInt8) : Option Line :=
  if s.len < sub64 size 1 then
    (move s.buf (s.pos + 1) s.pos (sub64 s.len s.pos)).bind fun b =>
      (store b s.pos [c]).map fun b => { s with buf := b, pos := s.pos + 1, len := s.len + 1 }
  else some s

def keep (s : Line) : Option Line :=
  (store s.buf s.len [0]).bind fun b => (Str.ofArray b).bind fun line =>
    (store s.saved 0 (line.bytes ++ [0])).map fun saved => { s with buf := b, saved := saved }

def walkHistory (s : Line) (size : ℕ) (history : List Str) (step : ℤ) : Option Line :=
  (if s.hist = history.length then s.keep else some s).bind fun s =>
    let hist := s.hist + step
    (if hist = history.length then Str.ofArray s.saved
      else if hist < 0 then none else history[hist.toNat]?).bind fun h =>
      let len := min h.bytes.length (sub64 size 1)
      (store s.buf 0 (h.bytes.take len)).map fun b => { s with hist := hist, len := len, pos := len, buf := b }

def digitKey (s : Line) (c : UInt8) : Option Line :=
  if c = 51 ∧ s.pos < s.len then s.deleteAt s.pos
  else if c = 49 ∨ c = 55 then some s.toStart
  else if c = 52 ∨ c = 56 then some s.toEnd
  else some s

def letterKey (s : Line) (size : ℕ) (history : List Str) (c : UInt8) : Option Line :=
  if c = 67 ∧ s.pos < s.len then some { s with pos := s.pos + 1 }
  else if c = 68 ∧ s.pos > 0 then some { s with pos := s.pos - 1 }
  else if c = 72 then some s.toStart
  else if c = 70 then some s.toEnd
  else if c = 65 ∧ s.hist > 0 ∨ c = 66 ∧ s.hist < history.length then
    s.walkHistory size history (if c = 65 then -1 else 1)
  else some s

def editKey (s : Line) (size : ℕ) (c : UInt8) : Option Line :=
  if c = 127 ∨ c = 8 then s.backspace
  else if c = 1 then some s.toStart
  else if c = 5 then some s.toEnd
  else if c = 21 then s.killToStart
  else if c = 11 then some s.killToEnd
  else if c = 23 then s.killWord
  else if c = 12 then some s
  else if c ≥ 32 then s.insertChar size c
  else some s

def signalled (s : Line) (sigint : Bool) : Line := { s with gotSigint := s.gotSigint || sigint }

end Line

def readByte : List Input → Option UInt8 × Bool × List Input
  | [] => (none, false, [])
  | i :: gs => (match i.got with | .byte c => some c | _ => none, i.sigint, gs)

namespace Line

def shown (gs : List Input) (s : Option Line) : Option (Turn Line) := (s.bind refresh).map (.again · gs)

def escape (size : ℕ) (history : List Str) (s : Line) (gs : List Input) : Option (Turn Line) :=
  match readByte gs with
  | (none, b, gs) => some (.again (s.signalled b) gs)
  | (some s1, b, gs) => match readByte gs with
    | (none, b', gs) => some (.again ((s.signalled b).signalled b') gs)
    | (some s2, b', gs) =>
      let s := (s.signalled b).signalled b'
      if s1 ≠ 91 ∧ s1 ≠ 79 then some (.again s gs)
      else if 48 ≤ s2 ∧ s2 ≤ 57 then match readByte gs with
        | (none, b, gs) => some (.again (s.signalled b) gs)
        | (some _, b, gs) => shown gs ((s.signalled b).digitKey s2)
      else shown gs (s.letterKey size history s2)

def key (size : ℕ) (history : List Str) (s : Line) (c : UInt8) (directories : Directories) (gs : List Input) :
    Option (Turn Line) :=
  if c = 10 ∨ c = 13 then some (.returns s.len s)
  else if c = 4 then if s.len = 0 then some (.returns (-1) s) else shown gs s.deleteHere
  else if c = 9 then (s.complete (sub64 size 1) directories).map (.again · gs)
  else if c = 27 then s.escape size history gs
  else shown gs (s.editKey size c)

def round (size : ℕ) (history : List Str) (s : Line) : List Input → Option (Turn Line)
  | [] => some (.returns (if s.gotSigint then -2 else -1) s)
  | i :: gs =>
    let s := s.signalled i.sigint
    match i.got with
    | .interrupted => some (.returns (-2) s)
    | .failed => some (.returns (if s.gotSigint then -2 else -1) s)
    | .byte c => if s.gotSigint then some (.returns (-2) s) else s.key size history c i.directories gs

def rounds (size : ℕ) (history : List Str) (s : Line) (gs : List Input) : ℕ → Option (Turn Line)
  | 0 => some (.again s gs)
  | n + 1 => (rounds size history s gs n).bind fun
    | .again s gs => s.round size history gs
    | t => some t

def start (buf : List UInt8) (history : List Str) : Line := { buf := buf, hist := history.length }

end Line

/-- The result, the buffer and the history; there are fewer rounds than inputs and one more. `none` stands for an
access outside of an array, or for a loop that goes on. -/
def editLine (size : ℕ) (buf : List UInt8) (history : List Str) (gs : List Input) :
    Option (ℤ × List UInt8 × List Str) :=
  (Line.rounds size history (Line.start buf history) gs (gs.length + 1)).bind fun
    | .again _ _ => none
    | .returns result s => (store s.buf s.len [0]).bind fun buf =>
      if result ≥ 0 then (Str.ofArray buf).map fun line => (result, buf, historyAdd history line)
      else some (result, buf, history)

end MyOS.User.Shell
