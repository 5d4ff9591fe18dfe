import Mathlib.Tactic

/-! Printers, which hand the bytes of their output to a sink, one at a time, and count them in 32 bits by themselves. -/

namespace MyOS.Library

open Function

def Printer := ∀ σ : Type, (UInt8 → σ → σ) → σ × Int32 → σ × Int32

namespace Printer

def skip : Printer := fun _ _ p => p

def put (c : UInt8) : Printer := fun _ emit (s, count) => (emit c s, count + 1)

def andThen (p q : Printer) : Printer := fun σ emit x => q σ emit (p σ emit x)

def pad (c : UInt8) : ℕ → Printer
  | 0 => skip
  | n + 1 => (put c).andThen (pad c n)

def puts : List UInt8 → Printer
  | [] => skip
  | c :: l => (put c).andThen (puts l)

def apart (p : Printer) : Printer := fun σ emit (s, count) =>
  let (s, n) := p σ emit (s, 0)
  (s, count + n)

def Prints (p : Printer) (out : List UInt8) : Prop :=
  ∀ σ emit s n, p σ emit (s, n) = (out.foldl (fun s c => emit c s) s, n + Int32.ofNat out.length)

variable {p q : Printer} {out out' : List UInt8}

lemma prints_skip : Prints skip [] := by
  intro σ emit s n
  rw [skip, List.foldl_nil, List.length_nil]
  exact congrArg _ (Int32.add_zero n).symm

lemma prints_put (c : UInt8) : Prints (put c) [c] := fun _ _ _ _ => rfl

lemma Prints.andThen (hp : Prints p out) (hq : Prints q out') : Prints (p.andThen q) (out ++ out') := by
  intro σ emit s n
  rw [Printer.andThen, hp, hq, List.foldl_append, List.length_append, Int32.ofNat_add, Int32.add_assoc]

lemma Prints.apart (hp : Prints p out) : Prints p.apart out := by
  intro σ emit s n
  have h := hp σ emit s 0
  rw [Int32.zero_add] at h
  rw [Printer.apart, h]

lemma prints_pad (c : UInt8) (n : ℕ) : Prints (pad c n) (List.replicate n c) := by
  induction n with
  | zero => exact prints_skip
  | succ n ih => exact (prints_put c).andThen ih

lemma prints_puts (l : List UInt8) : Prints (puts l) l := by
  induction l with
  | nil => exact prints_skip
  | cons c l ih => exact (prints_put c).andThen ih

lemma Prints.ite {c : Prop} [Decidable c] (hp : Prints p out) (hq : Prints q out') :
    Prints (if c then p else q) (if c then out else out') := by
  split_ifs
  · exact hp
  · exact hq

def text (p : Printer) : List UInt8 := (p _ (fun c l => l ++ [c]) ([], 0)).1

lemma foldl_concat (out l : List UInt8) : out.foldl (fun l c => l ++ [c]) l = l ++ out := by
  induction out generalizing l with
  | nil => rw [List.foldl_nil, List.append_nil]
  | cons c out ih => rw [List.foldl_cons, ih, List.append_assoc, List.singleton_append]

lemma Prints.text_eq (hp : Prints p out) : p.text = out := by
  rw [text, hp, foldl_concat, List.nil_append]

end Printer

/-! Sinks -/

structure BufferAt where
  mem : ℕ → UInt8
  pos : ℕ

def BufferAt.emit (size : ℕ) (c : UInt8) (b : BufferAt) : BufferAt where
  mem := if (b.pos + 1) % 2 ^ 64 < size then update b.mem b.pos c else b.mem
  pos := (b.pos + 1) % 2 ^ 64

def Printer.toBuffer (p : Printer) (mem : ℕ → UInt8) (size : ℕ) : (ℕ → UInt8) × Int32 :=
  let (b, n) := p _ (BufferAt.emit size) (⟨mem, 0⟩, 0)
  (if size ≠ 0 then update b.mem (if b.pos < size then b.pos else size - 1) 0 else b.mem, n)

lemma BufferAt.foldl_emit (size : ℕ) (out : List UInt8) (b : BufferAt) (hlt : b.pos + out.length < 2 ^ 64) :
    (out.foldl (fun b c => b.emit size c) b).pos = b.pos + out.length ∧
      ∀ i, (out.foldl (fun b c => b.emit size c) b).mem i =
        if b.pos ≤ i ∧ i < b.pos + out.length ∧ i + 1 < size then out.getD (i - b.pos) 0 else b.mem i := by
  induction out generalizing b with
  | nil =>
    refine ⟨rfl, fun i => ?_⟩
    rw [if_neg]
    · rfl
    · rw [List.length_nil]
      omega
  | cons c out ih =>
    rw [List.length_cons] at hlt ⊢
    have hpos : (b.emit size c).pos = b.pos + 1 := Nat.mod_eq_of_lt (by omega)
    obtain ⟨hlen, hmem⟩ := ih (b.emit size c) (by omega)
    rw [List.foldl_cons]
    refine ⟨by omega, fun i => ?_⟩
    rw [hmem, hpos]
    have hemit : (b.emit size c).mem i = if i = b.pos ∧ i + 1 < size then c else b.mem i := by
      rw [BufferAt.emit, Nat.mod_eq_of_lt (by omega)]
      by_cases hi : i = b.pos
      · subst hi
        simp only [true_and]
        split_ifs
        · exact update_self ..
        · rfl
      · rw [if_neg (c := i = b.pos ∧ i + 1 < size) fun h => hi h.1]
        dsimp only
        split_ifs
        · exact update_of_ne hi ..
        · rfl
    rw [hemit]
    by_cases hi : i = b.pos
    · subst hi
      rw [if_neg (by omega), Nat.sub_self, List.getD_cons_zero]
      exact if_congr (by omega) rfl rfl
    · rw [if_neg (c := i = b.pos ∧ i + 1 < size) (by omega)]
      by_cases hle : b.pos + 1 ≤ i
      · rw [show i - b.pos = i - (b.pos + 1) + 1 by omega, List.getD_cons_succ]
        exact if_congr (by omega) rfl rfl
      · rw [if_neg (by omega), if_neg (by omega)]

lemma Printer.Prints.toBuffer {p : Printer} {out : List UInt8} (hp : p.Prints out) (mem : ℕ → UInt8) (size : ℕ)
    (hlt : out.length < 2 ^ 64) : (∀ i, size ≤ i → (p.toBuffer mem size).1 i = mem i) ∧
      (0 < size → (∀ i < min out.length (size - 1), (p.toBuffer mem size).1 i = out.getD i 0) ∧
        (p.toBuffer mem size).1 (min out.length (size - 1)) = 0) := by
  obtain ⟨hpos, hmem⟩ := BufferAt.foldl_emit size out ⟨mem, 0⟩ (by simpa only [Nat.zero_add] using hlt)
  simp only [Nat.zero_add, Nat.zero_le, true_and, Nat.sub_zero] at hpos hmem
  have hend : (if out.length < size then out.length else size - 1) = min out.length (size - 1) ∨ size = 0 := by
    split_ifs <;> omega
  rw [Printer.toBuffer, hp]
  simp only [hpos]
  constructor
  · intro i hi
    split_ifs
    · rw [update_of_ne (by omega), hmem, if_neg (by omega)]
    · rw [update_of_ne (by omega), hmem, if_neg (by omega)]
    · rw [hmem, if_neg (by omega)]
  · intro hsize
    rw [if_pos (by omega), hend.resolve_right (by omega)]
    refine ⟨fun i hi => ?_, update_self ..⟩
    rw [update_of_ne (by omega), hmem, if_pos (by omega)]

lemma Printer.Prints.toBuffer_snd {p : Printer} {out : List UInt8} (hp : p.Prints out) (mem : ℕ → UInt8) (size : ℕ) :
    (p.toBuffer mem size).2 = Int32.ofNat out.length := by
  rw [Printer.toBuffer, hp]
  exact Int32.zero_add _

structure Pieces where
  line : List UInt8 := []
  done : List (List UInt8) := []

def Pieces.emit (size : ℕ) (c : UInt8) (b : Pieces) : Pieces :=
  if (b.line ++ [c]).length = size then { done := b.done ++ [b.line ++ [c]] } else { b with line := b.line ++ [c] }

def Printer.toPieces (p : Printer) (size : ℕ) : List (List UInt8) × Int32 :=
  let (b, n) := p _ (Pieces.emit size) ({}, 0)
  (if b.line.length ≠ 0 then b.done ++ [b.line] else b.done, n)

lemma Pieces.foldl_emit {size : ℕ} (hsize : 0 < size) (out : List UInt8) (b : Pieces) (hlt : b.line.length < size) :
    let b' := out.foldl (fun b c => b.emit size c) b
    b'.done.flatten ++ b'.line = b.done.flatten ++ b.line ++ out ∧ b'.line.length < size := by
  induction out generalizing b with
  | nil => exact ⟨(List.append_nil _).symm, hlt⟩
  | cons c out ih =>
    have hstep : (b.emit size c).done.flatten ++ (b.emit size c).line = b.done.flatten ++ b.line ++ [c] ∧
        (b.emit size c).line.length < size := by
      rw [Pieces.emit]
      split_ifs with h
      · refine ⟨?_, hsize⟩
        rw [List.flatten_append, List.flatten_singleton, List.append_nil, List.append_assoc]
      · refine ⟨(List.append_assoc ..).symm, ?_⟩
        rw [List.length_append, List.length_singleton] at h ⊢
        omega
    obtain ⟨hall, hlen⟩ := ih (b.emit size c) hstep.2
    rw [List.foldl_cons]
    refine ⟨?_, hlen⟩
    rw [hall, hstep.1, List.append_assoc, List.singleton_append]

lemma Printer.Prints.toPieces {p : Printer} {out : List UInt8} (hp : p.Prints out) {size : ℕ} (hsize : 0 < size) :
    (p.toPieces size).1.flatten = out ∧ (p.toPieces size).2 = Int32.ofNat out.length := by
  obtain ⟨hall, -⟩ := Pieces.foldl_emit hsize out {} hsize
  rw [Printer.toPieces, hp]
  refine ⟨?_, Int32.zero_add _⟩
  dsimp only
  split_ifs with h
  · rw [List.flatten_append, List.flatten_singleton, hall]
    rfl
  · rw [List.length_eq_zero_iff.1 (not_not.1 h), List.append_nil] at hall
    exact hall

end MyOS.Library
