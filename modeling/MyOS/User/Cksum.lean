import MyOS.Library.Crc
import MyOS.User.Printf

/-! `cksum`: the checksum of a file that is read in pieces. -/

namespace MyOS.User.Cksum

open Library

def polynomial : UInt32 := 0x04C11DB7

def tableRound (c : UInt32) : UInt32 := if c &&& 0x80000000 ≠ 0 then (c <<< 1) ^^^ polynomial else c <<< 1

def makeTable (i : ℕ) : UInt32 := tableRound^[8] (UInt32.ofNat i <<< 24)

variable (table : ℕ → UInt32)

def step (crc : UInt32) (byte : UInt8) : UInt32 := (crc <<< 8) ^^^ table ((crc >>> 24) ^^^ byte.toUInt32).toNat

lemma toNat_shift_eight (l : UInt64) : (l >>> 8).toNat = l.toNat / 256 := by
  rw [UInt64.toNat_shiftRight, Nat.shiftRight_eq_div_pow]
  rfl

def lengthLoop (crc : UInt32) (l : UInt64) : UInt32 :=
  if _h : l = 0 then crc else lengthLoop (step table crc l.toUInt8) (l >>> 8)
termination_by l.toNat
decreasing_by
  have hpos : 0 < l.toNat := Nat.pos_of_ne_zero fun h => _h (UInt64.toNat_inj.1 h)
  rw [toNat_shift_eight]
  exact Nat.div_lt_self hpos (by decide)

/-- The loop over the calls of `read`, each with the bytes that it returns; `none` is an error. -/
def readLoop : List (Option (List UInt8)) → UInt32 → UInt64 → Option (UInt32 × UInt64)
  | none :: _, _, _ => none
  | some (c :: chunk) :: reads, crc, len =>
    readLoop reads ((c :: chunk).foldl (step table) crc) (len + UInt64.ofNat (c :: chunk).length)
  | _, crc, len => some (crc, len)

def cksumFd (reads : List (Option (List UInt8))) : Option (UInt32 × UInt64) :=
  (readLoop table reads 0 0).map fun r => (~~~lengthLoop table r.1 r.2, r.2)

def bits (b : UInt8) : List Bool := (List.range 8).map fun i => b.toNat.testBit (7 - i)

def lengthBytes (n : ℕ) : List UInt8 := (Nat.digits 256 n).map UInt8.ofNat

def posixMessage (data : List UInt8) : List Bool := (data ++ lengthBytes data.length).flatMap bits

section Table

abbrev generator : BitVec 32 := polynomial.toBitVec

lemma toBitVec_tableRound (c : UInt32) : (tableRound c).toBitVec = Crc.shiftStep generator c.toBitVec := by
  have hm : c &&& 0x80000000 ≠ 0 ↔ c.toBitVec.msb = true := by
    have htop : (0x80000000 : UInt32).toBitVec = BitVec.twoPow 32 31 := by decide
    rw [Ne, ← UInt32.toBitVec_inj, UInt32.toBitVec_and, htop, BitVec.and_twoPow, BitVec.msb_eq_getLsbD_last]
    cases c.toBitVec.getLsbD (32 - 1) <;> decide
  rw [tableRound, Crc.shiftStep]
  split_ifs with h₁ h₂ h₂
  · rfl
  · exact absurd (hm.1 h₁) h₂
  · exact absurd (hm.2 h₂) h₁
  · rfl

lemma toBitVec_iterate_tableRound (n : ℕ) (c : UInt32) :
    (tableRound^[n] c).toBitVec = (Crc.shiftStep generator)^[n] c.toBitVec := by
  induction n generalizing c with
  | zero => rfl
  | succ n ih => rw [Function.iterate_succ_apply, ih, toBitVec_tableRound]; rfl

lemma length_bits (b : UInt8) : (bits b).length = 8 := by simp [bits]

lemma top_bits (b : UInt8) : Crc.top 32 (bits b) = b.toUInt32.toBitVec <<< 24 := by
  have hall : ∀ n < 256, Crc.top 32 ((List.range 8).map fun i => n.testBit (7 - i)) = BitVec.ofNat 32 n <<< 24 := by
    decide +kernel
  have hb : b.toUInt32.toBitVec = BitVec.ofNat 32 b.toNat := by
    apply BitVec.eq_of_toNat_eq
    simp
  rw [hb, bits]
  exact hall b.toNat b.toNat_lt

def low (c : BitVec 32) : BitVec 32 := (c <<< 8) >>> 8

lemma getLsbD_low (c : BitVec 32) (i : ℕ) : (low c).getLsbD i = (decide (i < 24) && c.getLsbD i) := by
  rw [low, BitVec.getLsbD_ushiftRight, BitVec.getLsbD_shiftLeft]
  by_cases h : i < 24
  · simp [h, show 8 + i < 32 by omega]
  · simp [h, show ¬ 8 + i < 32 by omega]

lemma register_split (c b : BitVec 32) : c ^^^ b <<< 24 = low c ^^^ ((c >>> 24) ^^^ b) <<< 24 := by
  apply BitVec.eq_of_getLsbD_eq
  intro i hi
  simp only [BitVec.getLsbD_xor, BitVec.shiftLeft_xor_distrib, BitVec.getLsbD_shiftLeft, BitVec.getLsbD_ushiftRight,
    getLsbD_low]
  by_cases h : i < 24
  · simp [h]
  · have : 24 + (i - 24) = i := by omega
    simp [h, hi, this]

lemma iterate_shiftStep_low (c : BitVec 32) : (Crc.shiftStep generator)^[8] (low c) = c <<< 8 := by
  rw [Crc.iterate_shiftStep_low]
  · apply BitVec.eq_of_getLsbD_eq
    intro i hi
    rw [BitVec.getLsbD_shiftLeft, BitVec.getLsbD_shiftLeft, getLsbD_low]
    by_cases h : i < 8
    · simp [h]
    · simp [h, show i - 8 < 24 by omega]
  · intro i hi
    rw [getLsbD_low, decide_eq_false (by omega), Bool.false_and]

lemma toBitVec_step (c : UInt32) (b : UInt8) :
    (step makeTable c b).toBitVec = (bits b).foldl (Crc.bitStep generator) c.toBitVec := by
  have hentry : (makeTable ((c >>> 24) ^^^ b.toUInt32).toNat).toBitVec =
      (Crc.shiftStep generator)^[8] (((c.toBitVec >>> 24) ^^^ b.toUInt32.toBitVec) <<< 24) := by
    rw [makeTable, UInt32.ofNat_toNat, toBitVec_iterate_tableRound]
    rfl
  calc (step makeTable c b).toBitVec
      = (c.toBitVec <<< 8) ^^^ (makeTable ((c >>> 24) ^^^ b.toUInt32).toNat).toBitVec := rfl
    _ = (Crc.shiftStep generator)^[8] (low c.toBitVec ^^^ ((c.toBitVec >>> 24) ^^^ b.toUInt32.toBitVec) <<< 24) := by
        rw [hentry, Crc.iterate_shiftStep_xor, iterate_shiftStep_low]
    _ = (Crc.shiftStep generator)^[8] (c.toBitVec ^^^ Crc.top 32 (bits b)) := by rw [← register_split, top_bits]
    _ = (bits b).foldl (Crc.bitStep generator) c.toBitVec := by
        rw [Crc.foldl_bitStep (by rw [length_bits]; decide), length_bits]

lemma toBitVec_steps (data : List UInt8) (c : UInt32) :
    (data.foldl (step makeTable) c).toBitVec = (data.flatMap bits).foldl (Crc.bitStep generator) c.toBitVec := by
  induction data generalizing c with
  | nil => rfl
  | cons b data ih => rw [List.foldl_cons, ih, toBitVec_step, List.flatMap_cons, List.foldl_append]

end Table

section Reads

variable {table}

lemma lengthLoop_eq (l : UInt64) (crc : UInt32) :
    lengthLoop table crc l = (lengthBytes l.toNat).foldl (step table) crc := by
  induction crc, l using lengthLoop.induct table with
  | case1 crc => simp [lengthLoop, lengthBytes]
  | case2 crc l h ih =>
    have hpos : l.toNat ≠ 0 := fun h' => h (UInt64.toNat_inj.1 h')
    have hbyte : l.toUInt8 = UInt8.ofNat (l.toNat % 256) := by
      apply UInt8.toNat_inj.1
      simp
    rw [lengthLoop, dif_neg h, ih, toNat_shift_eight, lengthBytes, lengthBytes,
      Nat.digits_def' (by decide) (Nat.pos_of_ne_zero hpos), List.map_cons, List.foldl_cons, hbyte]

lemma readLoop_eq (chunks : List (List UInt8)) (h : ∀ c ∈ chunks, c ≠ []) (crc : UInt32) (len : UInt64) :
    readLoop table (chunks.map some) crc len =
      some (chunks.flatten.foldl (step table) crc, len + UInt64.ofNat chunks.flatten.length) := by
  induction chunks generalizing crc len with
  | nil => simp [readLoop]
  | cons c chunks ih =>
    obtain ⟨b, c, rfl⟩ := List.exists_cons_of_ne_nil (h c List.mem_cons_self)
    rw [List.map_cons, readLoop, ih fun c hc => h c (List.mem_cons_of_mem _ hc), List.flatten_cons, List.foldl_append,
      List.length_append, UInt64.ofNat_add, UInt64.add_assoc]

end Reads

/-- The checksum of `cksum` by its definition: the remainder of the message bit by bit, complemented. -/
def posixCksum (data : List UInt8) : UInt32 := ⟨~~~Crc.remainder generator (posixMessage data)⟩

/-- What `cksum_fd` prints with the format `"%u %lu%s%s\n"`; a file with a read that fails has no checksum. -/
def cksumPrinted (name : Option (List UInt8)) (reads : List (Option (List UInt8))) : List UInt8 :=
  match cksumFd makeTable reads with
  | none => []
  | some (crc, len) =>
    formatted [37, 117, 32, 37, 108, 117, 37, 115, 37, 115, 10]
      [.word crc.toUInt64, .word len, .str (if name.isSome then [32] else []), .str (name.getD [])]

def posixLine (name : Option (List UInt8)) (data : List UInt8) : List UInt8 :=
  decimal (posixCksum data).toNat ++ [32] ++ decimal data.length ++ name.elim [] (32 :: ·) ++ [10]

lemma cksumPrinted_ne (name : Option (List UInt8)) (reads : List (Option (List UInt8))) (data : List UInt8) :
    cksumPrinted name reads ≠ posixLine name data := by
  have hline : posixLine name data = decimal (posixCksum data).toNat ++
      (32 :: (decimal data.length ++ (name.elim [] (32 :: ·) ++ [10]))) := by
    simp only [posixLine, List.append_assoc, List.cons_append, List.nil_append]
  rw [hline, cksumPrinted]
  intro he
  split at he
  · exact absurd (List.append_eq_nil_iff.1 he.symm).2 (List.cons_ne_nil _ _)
  · rw [formatted, format_text_directive (c := 117) (l := [32, 37, 108, 117, 37, 115, 37, 115, 10]) _ rfl] at he
    exact decimal_append_ne _ _ _ he.symm

theorem cksumFd_posix (chunks : List (List UInt8)) (hreads : ∀ c ∈ chunks, c ≠ [])
    (hlen : chunks.flatten.length < 2 ^ 64) :
    (∀ name, cksumPrinted name (chunks.map some) ≠ posixLine name chunks.flatten) ∧
      cksumFd makeTable (chunks.map some) =
        some (posixCksum chunks.flatten, UInt64.ofNat chunks.flatten.length) ∧
      Crc.poly (~~~(posixCksum chunks.flatten).toBitVec) =
        Polynomial.modByMonic (Crc.message (posixMessage chunks.flatten) * Polynomial.X ^ 32)
          (Crc.generator generator) ∧
      ∀ crc byte, (step makeTable crc byte).toBitVec = (bits byte).foldl (Crc.bitStep generator) crc.toBitVec := by
  refine ⟨fun name => cksumPrinted_ne name _ _, ?_, ?_, toBitVec_step⟩
  · have hn : (UInt64.ofNat chunks.flatten.length).toNat = chunks.flatten.length := UInt64.toNat_ofNat_of_lt hlen
    rw [cksumFd, readLoop_eq chunks hreads, UInt64.zero_add, Option.map_some, lengthLoop_eq, hn, ← List.foldl_append]
    congr 2
    apply UInt32.toBitVec_inj.1
    rw [UInt32.toBitVec_not, toBitVec_steps]
    rfl
  · rw [posixCksum, BitVec.not_not]
    exact Crc.poly_remainder (by decide) _

theorem cksumFd_posix_two_reads :
    cksumPrinted none [some [49, 50, 51, 52], some [53, 54, 55, 56, 57]] ≠
        posixLine none [49, 50, 51, 52, 53, 54, 55, 56, 57] ∧
      cksumFd makeTable [some [49, 50, 51, 52], some [53, 54, 55, 56, 57]] =
        some (posixCksum [49, 50, 51, 52, 53, 54, 55, 56, 57], 9) :=
  have h := cksumFd_posix [[49, 50, 51, 52], [53, 54, 55, 56, 57]] (by decide) (by decide)
  ⟨h.1 none, h.2.1⟩

theorem not_cksum_posix : cksumPrinted (some [102]) [some [49, 50, 51, 52, 53, 54, 55, 56, 57]] =
      [63, 32, 63, 32, 102, 10] ∧
    posixLine (some [102]) [49, 50, 51, 52, 53, 54, 55, 56, 57] =
      [57, 51, 48, 55, 54, 54, 56, 54, 53, 32, 57, 32, 102, 10] ∧
    ¬ ∀ (name : Option (List UInt8)) (chunks : List (List UInt8)), (∀ c ∈ chunks, c ≠ []) →
      chunks.flatten.length < 2 ^ 64 → cksumPrinted name (chunks.map some) = posixLine name chunks.flatten := by
  refine ⟨by decide +kernel, by decide +kernel, fun h => ?_⟩
  exact cksumPrinted_ne _ _ _ (h (some [102]) [[49, 50, 51, 52, 53, 54, 55, 56, 57]] (by decide) (by decide))

end MyOS.User.Cksum
