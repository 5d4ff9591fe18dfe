import MyOS.User.ReadLines
import MyOS.User.Printf
import MyOS.Fs.PathNormalize

/-! `grep`: the lines that have a text in them. -/

namespace MyOS.User

open Fs Library

def grepLineSize : ℕ := 2048

def tolower (c : UInt8) : UInt8 := if 65 ≤ c ∧ c ≤ 90 then c + 32 else c

structure Grep where
  optI : Bool := false
  optV : Bool := false
  optN : Bool := false
  optC : Bool := false
  pattern : List UInt8
  anchorStart : Bool := false
  anchorEnd : Bool := false

/-- `selected` is not in the source: the lines that are counted, with their numbers. -/
structure Grepped where
  lineno : ℕ := 0
  count : ℕ := 0
  out : List UInt8 := []
  selected : List (List UInt8 × ℕ) := []

namespace Grep

variable (g : Grep)

def ofArgument (arg : List UInt8) : Grep :=
  let start := arg.head? = some 94
  let arg := if start then arg.tail else arg
  let stop := arg.getLast? = some 36
  { g with pattern := if stop then arg.dropLast else arg, anchorStart := start, anchorEnd := stop }

def eq (a b : UInt8) : Bool := if g.optI then tolower a = tolower b else a = b

def matchFrom : List UInt8 → List UInt8 → Bool
  | [], s => !g.anchorEnd || s.isEmpty
  | _ :: _, [] => false
  | p :: ps, c :: s => g.eq c p && matchFrom ps s

def matchAt (s : List UInt8) : Bool := g.matchFrom g.pattern s

def matchAnywhere : List UInt8 → Bool
  | [] => g.matchAt []
  | c :: s => g.matchAt (c :: s) || matchAnywhere s

def matchesLine (line : List UInt8) : Bool := if g.anchorStart then g.matchAt line else g.matchAnywhere line

def heading (name : Option CString) : List UInt8 := name.elim [] fun n => n.bytes ++ [58]

def printed (name : Option CString) (x : List UInt8 × ℕ) : List UInt8 :=
  heading name ++ (if g.optN then formatted [37, 108, 100, 58] [.word (UInt64.ofNat x.2)] else []) ++ x.1 ++ [10]

/-- One round of the loop of `grep`; the string in the buffer ends at its first zero. -/
def round (name : Option CString) (a : Grepped) (buf : List UInt8) : Grepped :=
  let a := { a with lineno := a.lineno + 1 }
  let line := strip 10 (buf.takeWhile (· != 0))
  if g.matchesLine line = g.optV then a
  else
    { a with
      count := a.count + 1
      out := if g.optC then a.out else a.out ++ g.printed name (line, a.lineno)
      selected := a.selected ++ [(line, a.lineno)] }

def grep (name : Option CString) (o : Descriptor) (fuel : ℕ) (f : Stream) : Option (ℕ × Grepped) :=
  (f.forLines o grepLineSize (g.round name) fuel {}).map fun a =>
    (if a.count ≠ 0 then 0 else 1,
      if g.optC then { a with out := a.out ++ heading name ++ formatted [37, 108, 100, 10] [.word (UInt64.ofNat a.count)] }
      else a)

def Contains (line : List UInt8) : Prop := ∃ a m b, line = a ++ m ++ b ∧
  List.Forall₂ (fun c p => g.eq c p = true) m g.pattern ∧ (g.anchorStart = true → a = []) ∧
    (g.anchorEnd = true → b = [])

section Match

variable {g} {s ps line : List UInt8}

lemma matchFrom_iff : g.matchFrom ps s = true ↔ ∃ m b, s = m ++ b ∧
    List.Forall₂ (fun c p => g.eq c p = true) m ps ∧ (g.anchorEnd = true → b = []) := by
  induction ps generalizing s with
  | nil =>
    rw [matchFrom]
    constructor
    · intro h
      refine ⟨[], s, rfl, .nil, fun he => ?_⟩
      rw [he] at h
      simpa using h
    · rintro ⟨m, b, rfl, hm, hb⟩
      obtain rfl := List.forall₂_nil_right_iff.1 hm
      cases he : g.anchorEnd with
      | false => rfl
      | true => simpa using hb he
  | cons p ps ih =>
    cases s with
    | nil =>
      refine iff_of_false nofun ?_
      rintro ⟨m, b, hs, hm, -⟩
      obtain ⟨rfl, rfl⟩ := List.append_eq_nil_iff.1 hs.symm
      exact nomatch hm
    | cons c s =>
      rw [matchFrom, Bool.and_eq_true, ih]
      constructor
      · rintro ⟨hc, m, b, rfl, hm, hb⟩
        exact ⟨c :: m, b, rfl, .cons hc hm, hb⟩
      · rintro ⟨m, b, hs, hm, hb⟩
        cases hm with
        | cons hc hm =>
          obtain ⟨rfl, rfl⟩ := List.cons.inj hs
          exact ⟨hc, _, b, rfl, hm, hb⟩

lemma matchAnywhere_iff : g.matchAnywhere line = true ↔ ∃ a s, line = a ++ s ∧ g.matchAt s = true := by
  induction line with
  | nil =>
    rw [matchAnywhere]
    constructor
    · exact fun h => ⟨[], [], rfl, h⟩
    · rintro ⟨a, s, hs, h⟩
      obtain ⟨rfl, rfl⟩ := List.append_eq_nil_iff.1 hs.symm
      exact h
  | cons c line ih =>
    rw [matchAnywhere, Bool.or_eq_true, ih]
    constructor
    · rintro (h | ⟨a, s, rfl, h⟩)
      · exact ⟨[], _, rfl, h⟩
      · exact ⟨c :: a, s, rfl, h⟩
    · rintro ⟨a, s, hs, h⟩
      cases a with
      | nil => exact Or.inl (by rw [hs]; exact h)
      | cons d a => exact Or.inr ⟨a, s, (List.cons.inj hs).2, h⟩

lemma matchesLine_iff : g.matchesLine line = true ↔ g.Contains line := by
  unfold matchesLine Contains
  cases ha : g.anchorStart with
  | true =>
    rw [if_pos rfl, matchAt, matchFrom_iff]
    constructor
    · rintro ⟨m, b, rfl, hm, hb⟩
      exact ⟨[], m, b, rfl, hm, fun _ => rfl, hb⟩
    · rintro ⟨a, m, b, rfl, hm, hstart, hb⟩
      rw [hstart rfl]
      exact ⟨m, b, rfl, hm, hb⟩
  | false =>
    rw [if_neg Bool.false_ne_true, matchAnywhere_iff]
    constructor
    · rintro ⟨a, s, rfl, h⟩
      obtain ⟨m, b, rfl, hm, hb⟩ := matchFrom_iff.1 h
      exact ⟨a, m, b, (List.append_assoc a m b).symm, hm, fun h => absurd h Bool.false_ne_true, hb⟩
    · rintro ⟨a, m, b, rfl, hm, -, hb⟩
      exact ⟨a, m ++ b, List.append_assoc a m b, matchFrom_iff.2 ⟨m, b, rfl, hm, hb⟩⟩

instance : Decidable (g.Contains line) := decidable_of_iff _ matchesLine_iff

end Match

def wanted (line : List UInt8) : Bool := decide (g.Contains line) != g.optV

def numbered (name : Option CString) (x : List UInt8 × ℕ) : List UInt8 :=
  heading name ++ (if g.optN then decimal x.2 ++ [58] else []) ++ x.1 ++ [10]

def report (name : Option CString) (xs : List (List UInt8 × ℕ)) : List UInt8 :=
  if g.optC then heading name ++ decimal xs.length ++ [10] else xs.flatMap (g.numbered name)

structure Right (name : Option CString) (input : List UInt8) (a : Grepped) : Prop where
  selected : a.selected = Library.selected g.wanted 1 (lines 10 input)
  count : a.count = (Library.selected g.wanted 1 (lines 10 input)).length
  out : a.out = g.report name (Library.selected g.wanted 1 (lines 10 input))

def NoNumbers (input : List UInt8) : Prop :=
  g.optC = false ∧ (g.optN = true → ∀ line ∈ lines 10 input, g.wanted line = false)

/-- No line is cut by the buffer, or the pieces of the first one that is are selected as the line is, and nothing behind
it. -/
def Uncut (input : List UInt8) : Prop := Harmless g.wanted (strip 10)
  (fun r => (pieces 10 (grepLineSize - 1) r).map (strip 10)) (rawLines 10 input)

variable {g} {name : Option CString} {a : Grepped} {ps : List (List UInt8)} {line p : List UInt8}

lemma matchesLine_eq : g.matchesLine line = decide (g.Contains line) := by
  rw [Bool.eq_iff_iff, matchesLine_iff, decide_eq_true_iff]

lemma round_eq (h : 0 ∉ p) : g.round name a p =
    let s := Library.selected g.wanted (a.lineno + 1) [strip 10 p]
    ⟨a.lineno + 1, a.count + s.length, if g.optC then a.out else a.out ++ s.flatMap (g.printed name),
      a.selected ++ s⟩ := by
  have hp : p.takeWhile (· != 0) = p := List.takeWhile_eq_self_iff.2 fun c hc => by
    simpa using fun h0 : c = 0 => h (h0 ▸ hc)
  rw [round, hp, selected_cons, wanted, matchesLine_eq]
  by_cases hw : decide (g.Contains (strip 10 p)) = g.optV
  · simp [hw, selected_nil]
  · simp [hw, selected_nil]

lemma foldl_round (h : ∀ p ∈ ps, 0 ∉ p) : ps.foldl (g.round name) a =
    let s := Library.selected g.wanted (a.lineno + 1) (ps.map (strip 10))
    ⟨a.lineno + ps.length, a.count + s.length, if g.optC then a.out else a.out ++ s.flatMap (g.printed name),
      a.selected ++ s⟩ := by
  induction ps generalizing a with
  | nil => simp [selected_nil]
  | cons p ps ih =>
    have happend : Library.selected g.wanted (a.lineno + 1) ([strip 10 p] ++ ps.map (strip 10)) = _ := selected_append
    have hsplit : Library.selected g.wanted (a.lineno + 1) ((p :: ps).map (strip 10)) = _ := happend
    rw [List.foldl_cons, round_eq (h p List.mem_cons_self), ih fun q hq => h q (List.mem_cons_of_mem p hq), hsplit]
    cases g.optC <;> simp [Nat.add_assoc, Nat.add_comm 1]

variable {g : Grep} {name : Option CString}

def written (g : Grep) (name : Option CString) (xs : List (List UInt8 × ℕ)) : List UInt8 :=
  if g.optC then heading name ++ formatted [37, 108, 100, 10] [.word (UInt64.ofNat xs.length)]
  else xs.flatMap (g.printed name)

lemma printed_of_plain (h : g.optN = false) (x : List UInt8 × ℕ) : g.printed name x = g.numbered name x := by
  rw [printed, numbered, h]
  rfl

lemma printed_append_ne (h : g.optN = true) (x : List UInt8 × ℕ) (l l' : List UInt8) :
    g.printed name x ++ l ≠ g.numbered name x ++ l' := by
  rw [printed, numbered, if_pos h, if_pos h, formatted_long x.2 58 (by decide)]
  simp only [List.append_assoc]
  intro he
  exact decimal_append_ne x.2 _ _ (List.append_cancel_left he).symm

lemma written_eq_report (name : Option CString) {xs : List (List UInt8 × ℕ)} :
    g.written name xs = g.report name xs ↔ g.optC = false ∧ (g.optN = true → xs = []) := by
  rw [written, report]
  cases hc : g.optC with
  | true =>
    rw [if_pos rfl, if_pos rfl, formatted_long xs.length 10 (by decide), List.append_assoc]
    refine iff_of_false (fun he => ?_) (fun h => absurd h.1 (by decide))
    exact decimal_append_ne xs.length _ _ (List.append_cancel_left he).symm
  | false =>
    rw [if_neg (by decide), if_neg (by decide)]
    constructor
    · refine fun he => ⟨rfl, fun hn => ?_⟩
      cases xs with
      | nil => rfl
      | cons x xs => exact absurd he (printed_append_ne hn x _ _)
    · rintro ⟨-, hn⟩
      cases h : g.optN with
      | true => rw [hn h, List.flatMap_nil, List.flatMap_nil]
      | false => exact congrArg (xs.flatMap ·) (funext (printed_of_plain h))

lemma grep_eq (t : ℕ → ℕ) (input : CString) {fuel : ℕ} (hfuel : input.bytes.length < fuel) :
    g.grep name (Mode.r.descriptor fun i => some (t i)) fuel { file := FileAt.ofBytes input.bytes } =
      let s := Library.selected g.wanted 1 ((pieces 10 (grepLineSize - 1) input.bytes).map (strip 10))
      some (if s ≠ [] then 0 else 1,
        ⟨(pieces 10 (grepLineSize - 1) input.bytes).length, s.length, g.written name s, s⟩) := by
  have hzero : ∀ p ∈ pieces 10 (grepLineSize - 1) input.bytes, 0 ∉ p := by
    intro p hp h0
    have hm : 0 ∈ (pieces 10 (grepLineSize - 1) input.bytes).flatten := List.mem_flatten.2 ⟨p, hp, h0⟩
    rw [flatten_pieces (by decide)] at hm
    exact input.noZero hm
  have hreads : (Mode.r.descriptor fun i => some (t i)).Reads := ⟨rfl, fun _ => nofun⟩
  have hloop := Stream.forLines_eq (g.round name) {} hreads (by decide : 1 < grepLineSize)
    (Stream.follows_start (d := FileAt.ofBytes input.bytes) (Nat.zero_le _)) rfl (by rwa [FileAt.rest_ofBytes])
  rw [FileAt.rest_ofBytes, foldl_round hzero] at hloop
  rw [grep, hloop]
  cases hc : g.optC <;> simp [written, hc, List.length_eq_zero_iff]

theorem grep_selects (g : Grep) (arg : CString) (name : Option CString) (t : ℕ → ℕ) (input : CString) :
    ∃ n status a, (∀ fuel, n ≤ fuel → (g.ofArgument arg.bytes).grep name (Mode.r.descriptor fun i => some (t i)) fuel
      { file := FileAt.ofBytes input.bytes } = some (status, a)) ∧
      ((g.ofArgument arg.bytes).Right name input.bytes a ↔
        (g.ofArgument arg.bytes).NoNumbers input.bytes ∧ (g.ofArgument arg.bytes).Uncut input.bytes) := by
  generalize g.ofArgument arg.bytes = g
  refine ⟨input.bytes.length + 1, _, _, fun fuel hf => grep_eq t input hf, ?_⟩
  have hroom : 0 < grepLineSize - 1 := by decide
  rw [Uncut, ← (cuts_pieces hroom).selected_eq_iff (i := 1), ← lines_eq_map, ← List.map_flatMap,
    ← pieces_eq_flatMap hroom, NoNumbers, ← selected_eq_nil (i := 1), ← written_eq_report name]
  constructor
  · intro h
    have hsel : _ = Library.selected g.wanted 1 (lines 10 input.bytes) := h.selected
    have hout : g.written name _ = _ := h.out
    exact ⟨hsel ▸ hout, hsel⟩
  · rintro ⟨hout, hsel⟩
    exact ⟨hsel, congrArg List.length hsel, (congrArg (g.written name) hsel).trans hout⟩

theorem grep_cut : (∃ input : CString, ∃ status a, (∀ fuel, 2048 < fuel →
      (Grep.ofArgument { pattern := [] } []).grep none (Mode.r.descriptor fun _ => some 0) fuel
        { file := FileAt.ofBytes input.bytes } = some (status, a)) ∧
      ¬ (Grep.ofArgument { pattern := [] } []).Right none input.bytes a) ∧
    ∃ status a, (∀ fuel, 2 < fuel →
      (Grep.ofArgument { optN := true, pattern := [] } []).grep none (Mode.r.descriptor fun _ => some 0) fuel
        { file := FileAt.ofBytes [97, 10] } = some (status, a)) ∧ a.out = [63, 58, 97, 10] ∧
      ¬ (Grep.ofArgument { optN := true, pattern := [] } []).Right none [97, 10] a := by
  have hall {g : Grep} (hg : g = Grep.ofArgument { optN := g.optN, pattern := [] } []) (line : List UInt8) :
      g.wanted line = true := by
    have hc : g.Contains line := by
      rw [hg]
      exact ⟨[], [], line, rfl, .nil, fun _ => rfl, nofun⟩
    rw [wanted, decide_eq_true hc, hg]
    rfl
  constructor
  · set g := Grep.ofArgument { pattern := [] } []
    have hno (c : UInt8) (hc : c ≠ 97) : c ∉ List.replicate 2047 (97 : UInt8) := fun h => hc (List.eq_of_mem_replicate h)
    have hlen : (List.replicate 2047 (97 : UInt8)).length = 2047 := List.length_replicate
    generalize List.replicate 2047 (97 : UInt8) = t at hno hlen
    have hzero : 0 ∉ t ++ [10] := by
      rw [List.mem_append, not_or]
      exact ⟨hno 0 (by decide), by decide⟩
    refine ⟨⟨t ++ [10], hzero⟩, _, _, fun fuel hf => grep_eq (fun _ => 0) ⟨t ++ [10], hzero⟩ ?_, fun h => ?_⟩
    · rw [List.length_append, hlen]
      exact hf
    · have hcut : pieces 10 (grepLineSize - 1) (t ++ [10]) = [t, [10]] := by
        have hp : pieces 10 2047 (t ++ [10]) = _ := pieces_long (hno 10 (by decide)) (by decide) hlen.ge
        rw [List.take_of_length_le hlen.le, List.drop_eq_nil_of_le hlen.le, List.nil_append] at hp
        have hlast : pieces (10 : UInt8) 2047 ([] ++ 10 :: []) = ([] ++ [10]) :: pieces 10 2047 [] :=
          pieces_line List.not_mem_nil (by decide)
        rw [pieces_nil] at hlast
        exact hp.trans (congrArg (t :: ·) hlast)
      have hcount := h.count
      rw [hcut, lines_append_cons (hno 10 (by decide))] at hcount
      simp [selected_cons, selected_nil, hall (g := g) rfl, lines] at hcount
  · set g := Grep.ofArgument { optN := true, pattern := [] } []
    have hline : pieces (10 : UInt8) (grepLineSize - 1) [97, 10] = [[97, 10]] := by
      have hp : pieces (10 : UInt8) 2047 ([97] ++ 10 :: []) = ([97] ++ [10]) :: pieces 10 2047 [] :=
        pieces_line (by decide) (by decide)
      rwa [pieces_nil] at hp
    have hsel : Library.selected g.wanted 1 ((pieces 10 (grepLineSize - 1) [97, 10]).map (strip 10)) = [([97], 1)] := by
      rw [hline, List.map_cons, selected_cons, hall rfl]
      rfl
    refine ⟨_, _, fun fuel hf => grep_eq (fun _ => 0) ⟨[97, 10], by decide⟩ hf, ?_, fun h => ?_⟩
    · rw [hsel]
      decide +kernel
    · have hright : _ = Library.selected g.wanted 1 (lines 10 [97, 10]) := h.selected
      have hout : g.written none _ = g.report none _ := h.out
      rw [← hright, hsel] at hout
      exact absurd (((written_eq_report _).1 hout).2 rfl) (List.cons_ne_nil _ _)

end Grep

end MyOS.User
