import MyOS.Fs.RamFsTree
import MyOS.Library.Reading
import Mathlib.Data.List.DropRight

/-! `initrd_unpack`: the archive of the boot module is unpacked into the root file system. -/

namespace MyOS.Fs

open Library

def tarBlock : ℕ := 512

structure BootModule where
  physStart : ℕ
  physEnd : ℕ
  le : physStart ≤ physEnd
  mapped : physEnd ≤ 2 ^ 47

def BootModule.size (b : BootModule) : ℕ := b.physEnd - b.physStart

namespace Initrd

def magic : List UInt8 := [117, 115, 116, 97, 114]

def parseOctalFrom (v : ℕ) : List UInt8 → ℕ
  | [] => v
  | c :: s => if 48 ≤ c ∧ c ≤ 55 then parseOctalFrom ((v * 8 + (c.toNat - 48)) % 2 ^ 64) s else v

def parseOctal (s : List UInt8) : ℕ := parseOctalFrom 0 s

def text (field : List UInt8) : List UInt8 := field.takeWhile (· != 0)

def trim : List UInt8 → List UInt8
  | [] => []
  | c :: l => c :: l.rdropWhile (· == slash)

def path (pre name : List UInt8) : List UInt8 :=
  trim ((if pre = [] then slash :: name else slash :: (pre ++ slash :: name)).take (pathMax - 1))

structure Unpacking where
  off : ℕ
  fs : RamFs
  files : ℕ := 0
  dirs : ℕ := 0

def unpackDir (path : List UInt8) (mode : ℕ) (r : Room) (s : Unpacking) : Unpacking :=
  if path ≠ [slash] ∧ path ≠ [slash, dot] then
    match s.fs.vfsMkdir path mode r with
    | .error _ => s
    | .ok fs => { s with fs, dirs := s.dirs + 1 }
  else s

def unpackFile (path : List UInt8) (mode data fsize : ℕ) (r : Room) (s : Unpacking) :
    Reading (Option Unpacking) :=
  match s.fs.vfsOpen path mode r with
  | none => pure none
  | some (.error _, fs) => pure (some { s with fs })
  | some (.ok n, fs) => do
    let bytes ← Reading.load data fsize
    pure ((fs.fileWrite n bytes r).map fun fs => { s with fs, files := s.files + 1 })

def round (size : ℕ) (rooms : ℕ → Room) (s : Unpacking) : Reading (Unpacking ⊕ Option Unpacking) :=
  if size < (s.off + tarBlock) % 2 ^ 64 then pure (.inr (some s))
  else do
    let first ← Reading.load s.off 1
    if first = [0] then pure (.inr (some s))
    else
      let ustar ← Reading.load (s.off + 257) 5
      if ustar ≠ magic then pure (.inr (some s))
      else
        let sizeField ← Reading.load (s.off + 124) 12
        let modeField ← Reading.load (s.off + 100) 8
        let type ← Reading.load (s.off + 156) 1
        let fsize := parseOctal sizeField
        let mode := parseOctal modeField % 2 ^ 32 &&& permBits
        if size < (s.off + tarBlock + fsize) % 2 ^ 64 then pure (.inr (some s))
        else
          let nameField ← Reading.load s.off 100
          let prefixField ← Reading.load (s.off + 345) 155
          let p := path (text prefixField) (text nameField)
          let next := (s.off + (tarBlock + (fsize + tarBlock - 1) / tarBlock * tarBlock)) % 2 ^ 64
          if type = [53] then
            pure (.inl { unpackDir p mode (rooms s.off) s with off := next })
          else if type = [48] ∨ type = [0] then
            let t ← unpackFile p mode (s.off + tarBlock) fsize (rooms s.off) s
            match t with
            | none => pure (.inr none)
            | some t => pure (.inl { t with off := next })
          else pure (.inl { s with off := next })

end Initrd

/-- `initrd_unpack`: the number of files and the file system; the addresses are counted from the
beginning of the module. -/
def initrdUnpack (modules : List BootModule) (rooms : ℕ → Room) (fs : RamFs) :
    Looping (Option (ℕ × RamFs)) :=
  match modules with
  | [] => pure (some (0, fs))
  | b :: _ => do
    let s ← Looping.loop (fun s => liftM (Initrd.round b.size rooms s)) { off := 0, fs }
    pure (s.map fun s => (s.files, s.fs))

end MyOS.Fs

/-! What `initrd_unpack` makes of any boot module, and of a well-formed archive. -/

namespace MyOS.Fs

open Library Words Looping

namespace Initrd

variable {m : ℕ → UInt8} {size off n : ℕ} {rooms : ℕ → Room} {r : Room} {s t : Unpacking}

section Octal

lemma parseOctalFrom_lt (v : ℕ) (l : List UInt8) : parseOctalFrom v l < (v + 1) * 8 ^ l.length := by
  induction l generalizing v with
  | nil => simp [parseOctalFrom]
  | cons c l ih =>
    rw [parseOctalFrom, List.length_cons, pow_succ]
    split_ifs with hc
    · have hdigit : c.toNat ≤ 55 := UInt8.le_iff_toNat_le.1 hc.2
      calc parseOctalFrom ((v * 8 + (c.toNat - 48)) % 2 ^ 64) l
          < ((v * 8 + (c.toNat - 48)) % 2 ^ 64 + 1) * 8 ^ l.length := ih _
        _ ≤ ((v + 1) * 8) * 8 ^ l.length := Nat.mul_le_mul_right _ (by omega)
        _ = (v + 1) * (8 ^ l.length * 8) := by ring
    · calc v < v + 1 := Nat.lt_succ_self v
        _ ≤ (v + 1) * (8 ^ l.length * 8) := Nat.le_mul_of_pos_right _ (by positivity)

lemma parseOctal_lt (l : List UInt8) : parseOctal l < 8 ^ l.length := by
  have h := parseOctalFrom_lt 0 l
  rwa [Nat.zero_add, Nat.one_mul] at h

end Octal

section Round

def sizeAt (m : ℕ → UInt8) (off : ℕ) : ℕ := parseOctal (Bytes.load m (off + 124) 12)

def modeAt (m : ℕ → UInt8) (off : ℕ) : ℕ := parseOctal (Bytes.load m (off + 100) 8) % 2 ^ 32 &&& permBits

def pathAt (m : ℕ → UInt8) (off : ℕ) : List UInt8 :=
  path (text (Bytes.load m (off + 345) 155)) (text (Bytes.load m off 100))

def nextAt (m : ℕ → UInt8) (off : ℕ) : ℕ :=
  (off + (tarBlock + (sizeAt m off + tarBlock - 1) / tarBlock * tarBlock)) % 2 ^ 64

structure HeaderAt (m : ℕ → UInt8) (size off : ℕ) : Prop where
  block : (off + tarBlock) % 2 ^ 64 ≤ size
  first : Bytes.load m off 1 ≠ [0]
  magic : Bytes.load m (off + 257) 5 = magic
  data : (off + tarBlock + sizeAt m off) % 2 ^ 64 ≤ size

def memberAt (m : ℕ → UInt8) (r : Room) (s : Unpacking) : Option Unpacking :=
  if Bytes.load m (s.off + 156) 1 = [53] then some (unpackDir (pathAt m s.off) (modeAt m s.off) r s)
  else if Bytes.load m (s.off + 156) 1 = [48] ∨ Bytes.load m (s.off + 156) 1 = [0] then
    (unpackFile (pathAt m s.off) (modeAt m s.off) (s.off + tarBlock) (sizeAt m s.off) r s m).1
  else some s

lemma sizeAt_lt (m : ℕ → UInt8) (off : ℕ) : sizeAt m off < 2 ^ 36 := by
  have h := parseOctal_lt (Bytes.load m (off + 124) 12)
  rw [Bytes.length_load] at h
  exact h

lemma round_end (h : ¬ HeaderAt m size s.off) : (round size rooms s m).1 = .inr (some s) := by
  by_cases h₁ : size < (s.off + tarBlock) % 2 ^ 64
  · rw [round, if_pos h₁, Reading.pure_fst]
  rw [round, if_neg h₁, Reading.bind_fst, Reading.load_fst]
  by_cases h₂ : Bytes.load m s.off 1 = [0]
  · rw [if_pos h₂, Reading.pure_fst]
  rw [if_neg h₂, Reading.bind_fst, Reading.load_fst]
  by_cases h₃ : Bytes.load m (s.off + 257) 5 ≠ magic
  · rw [if_pos h₃, Reading.pure_fst]
  rw [if_neg h₃, Reading.bind_fst, Reading.load_fst, Reading.bind_fst, Reading.load_fst, Reading.bind_fst,
    Reading.load_fst]
  by_cases h₄ : size < (s.off + tarBlock + sizeAt m s.off) % 2 ^ 64
  · rw [sizeAt] at h₄
    dsimp only
    rw [if_pos h₄, Reading.pure_fst]
  · exact absurd ⟨not_lt.1 h₁, h₂, not_not.1 h₃, not_lt.1 h₄⟩ h

lemma round_member (h : HeaderAt m size s.off) : (round size rooms s m).1 =
    (memberAt m (rooms s.off) s).elim (.inr none) fun t => .inl { t with off := nextAt m s.off } := by
  have h₄ : ¬ size < (s.off + tarBlock + parseOctal (Bytes.load m (s.off + 124) 12)) % 2 ^ 64 :=
    not_lt.2 h.data
  rw [round, if_neg (not_lt.2 h.block), Reading.bind_fst, Reading.load_fst, if_neg h.first,
    Reading.bind_fst, Reading.load_fst, if_neg (not_not_intro h.magic), Reading.bind_fst, Reading.load_fst,
    Reading.bind_fst, Reading.load_fst, Reading.bind_fst, Reading.load_fst]
  dsimp only
  rw [if_neg h₄, Reading.bind_fst, Reading.load_fst, Reading.bind_fst, Reading.load_fst, memberAt]
  by_cases hd : Bytes.load m (s.off + 156) 1 = [53]
  · rw [if_pos hd, if_pos hd]
    rfl
  rw [if_neg hd, if_neg hd]
  by_cases hf : Bytes.load m (s.off + 156) 1 = [48] ∨ Bytes.load m (s.off + 156) 1 = [0]
  · rw [if_pos hf, if_pos hf, Reading.bind_fst, ← pathAt, ← modeAt, ← sizeAt]
    cases (unpackFile (pathAt m s.off) (modeAt m s.off) (s.off + tarBlock) (sizeAt m s.off) (rooms s.off) s m).1 with
    | none => rfl
    | some t => rfl
  · rw [if_neg hf, if_neg hf]
    rfl

lemma unpackFile_stays {path : List UInt8} {mode data fsize : ℕ} (h : data + fsize ≤ size) :
    (unpackFile path mode data fsize r s).Stays m size := by
  rw [unpackFile]
  split
  · exact Reading.stays_pure _
  · exact Reading.stays_pure _
  · rw [Reading.stays_bind, Reading.stays_load]
    exact ⟨h, Reading.stays_pure _⟩

lemma round_stays (hsize : size ≤ 2 ^ 47) (hoff : s.off ≤ size + tarBlock) :
    (round size rooms s).Stays m size := by
  rw [round, Reading.stays_ite]
  refine ⟨fun _ => Reading.stays_pure _, fun h₁ => ?_⟩
  have hblock : s.off + tarBlock ≤ size := by
    simp only [tarBlock] at *
    omega
  have hfield : ∀ a n, a + n ≤ tarBlock → s.off + a + n ≤ size := fun a n ha => by omega
  rw [Reading.stays_bind, Reading.stays_load]
  refine ⟨hfield 0 1 (by decide), ?_⟩
  rw [Reading.stays_ite]
  refine ⟨fun _ => Reading.stays_pure _, fun _ => ?_⟩
  rw [Reading.stays_bind, Reading.stays_load]
  refine ⟨hfield 257 5 (by decide), ?_⟩
  rw [Reading.stays_ite]
  refine ⟨fun _ => Reading.stays_pure _, fun _ => ?_⟩
  rw [Reading.stays_bind, Reading.stays_load, Reading.stays_bind, Reading.stays_load, Reading.stays_bind,
    Reading.stays_load]
  refine ⟨hfield 124 12 (by decide), hfield 100 8 (by decide), hfield 156 1 (by decide), ?_⟩
  dsimp only
  rw [Reading.load_fst, Reading.stays_ite]
  refine ⟨fun _ => Reading.stays_pure _, fun h₄ => ?_⟩
  have hdata : s.off + tarBlock + sizeAt m s.off ≤ size := by
    have hlt := sizeAt_lt m s.off
    rw [sizeAt] at *
    omega
  rw [Reading.stays_bind, Reading.stays_load, Reading.stays_bind, Reading.stays_load]
  refine ⟨hfield 0 100 (by decide), hfield 345 155 (by decide), ?_⟩
  rw [Reading.stays_ite]
  refine ⟨fun _ => Reading.stays_pure _, fun _ => ?_⟩
  rw [Reading.stays_ite]
  refine ⟨fun _ => ?_, fun _ => Reading.stays_pure _⟩
  rw [Reading.stays_bind]
  refine ⟨unpackFile_stays hdata, ?_⟩
  split <;> exact Reading.stays_pure _

lemma HeaderAt.inside (h : HeaderAt m size off) (hsize : size ≤ 2 ^ 47) (hoff : off ≤ size + tarBlock) :
    off + tarBlock + sizeAt m off ≤ size := by
  have hlt := sizeAt_lt m off
  have hblock := h.block
  have hdata := h.data
  simp only [tarBlock] at *
  omega

lemma HeaderAt.next (h : HeaderAt m size off) (hsize : size ≤ 2 ^ 47) (hoff : off ≤ size + tarBlock) :
    nextAt m off = off + (tarBlock + (sizeAt m off + tarBlock - 1) / tarBlock * tarBlock) ∧
      off < nextAt m off ∧ nextAt m off ≤ size + tarBlock := by
  have hin := h.inside hsize hoff
  have hnext : nextAt m off = off + (tarBlock + (sizeAt m off + tarBlock - 1) / tarBlock * tarBlock) := by
    rw [nextAt]
    simp only [tarBlock] at *
    omega
  refine ⟨hnext, ?_, ?_⟩ <;>
  · simp only [tarBlock] at *
    omega

lemma unpackDir_sound {path : List UInt8} {mode : ℕ} (h : s.fs.Sound) : (unpackDir path mode r s).fs.Sound := by
  rw [unpackDir]
  split_ifs
  · split
    · exact h
    · rename_i hs
      exact h.mkdir hs
  · exact h

lemma unpackFile_sound {path : List UInt8} {mode data fsize : ℕ} (h : s.fs.Sound) (hsize : fsize < 2 ^ 64) :
    ∃ t, (unpackFile path mode data fsize r s m).1 = some t ∧ t.fs.Sound := by
  obtain ⟨o, fs, ho, hfs⟩ := h.vfsOpen path mode r
  rw [unpackFile, ho]
  cases o with
  | error e => exact ⟨_, rfl, hfs⟩
  | ok n =>
    have hlen : (Bytes.load m data fsize).length < 2 ^ 64 := by rwa [Bytes.length_load]
    obtain ⟨fs', hw, hfs'⟩ := hfs.fileWrite n r hlen
    dsimp only
    rw [Reading.bind_fst, Reading.pure_fst, Reading.load_fst, hw]
    exact ⟨_, rfl, hfs'⟩

lemma memberAt_sound (h : s.fs.Sound) : ∃ t, memberAt m r s = some t ∧ t.fs.Sound := by
  rw [memberAt]
  split_ifs
  · exact ⟨_, rfl, unpackDir_sound h⟩
  · have hlt := sizeAt_lt m s.off
    exact unpackFile_sound h (by omega)
  · exact ⟨s, rfl, h⟩

variable (rooms) in
lemma loop_runs (hsize : size ≤ 2 ^ 47) (hoff : s.off ≤ size + tarBlock) (h : s.fs.Sound) :
    ∃ t, (loop (fun s => liftM (round size rooms s)) s).Runs m size (some t) ∧ t.fs.Sound := by
  have hstays : (round size rooms s).Stays m size := round_stays hsize hoff
  induction hk : size + tarBlock - s.off using Nat.strong_induction_on generalizing s with
  | _ k ih =>
    subst hk
    by_cases hh : HeaderAt m size s.off
    · obtain ⟨t, ht, hts⟩ := memberAt_sound (m := m) (r := rooms s.off) h
      obtain ⟨-, hlt, hle⟩ := hh.next hsize hoff
      have hround := Runs.lift hstays
      rw [round_member hh, ht, Option.elim_some] at hround
      obtain ⟨u, hu, hus⟩ := ih _ (by dsimp only; omega) (s := { t with off := nextAt m s.off }) hle hts
        (round_stays hsize hle) rfl
      exact ⟨u, .loop_step hround hu, hus⟩
    · have hround := Runs.lift hstays
      rw [round_end hh] at hround
      exact ⟨s, .loop_done hround, h⟩

end Round

end Initrd

end MyOS.Fs
