import MyOS.Library.Bytes

/-! The records of an ext2 directory: `dir_iterate` and what its visitors do to a block. -/

namespace MyOS.Fs.Ext2

open Library

abbrev Block := ℕ → UInt8

abbrev Name := List UInt8

def nameMax : ℕ := 255

/-! `struct ext2_dirent` at an offset of a block. -/

def inodeAt (b : Block) (d : ℕ) : ℕ := Bytes.read b d 4
def recLenAt (b : Block) (d : ℕ) : ℕ := Bytes.read b (d + 4) 2
def nameLenAt (b : Block) (d : ℕ) : ℕ := (b (d + 6)).toNat
def fileTypeAt (b : Block) (d : ℕ) : UInt8 := b (d + 7)
def nameAt (b : Block) (d : ℕ) : Name := Bytes.load b (d + 8) (nameLenAt b d)

def setInode (b : Block) (d ino : ℕ) : Block := Bytes.write b d 4 ino
def setRecLen (b : Block) (d n : ℕ) : Block := Bytes.write b (d + 4) 2 n

def setEntry (b : Block) (d ino : ℕ) (ft : UInt8) (name : Name) : Block :=
  Bytes.store (Bytes.store (setInode b d ino) (d + 6) [UInt8.ofNat name.length, ft]) (d + 8) name

def recSize (nameLen : ℕ) : ℕ := (8 + nameLen + 3) / 4 * 4

def direntOk (bs : ℕ) (b : Block) (d : ℕ) : Bool :=
  8 ≤ recLenAt b d && recLenAt b d % 4 == 0 && d + recLenAt b d ≤ bs &&
    recSize (nameLenAt b d) ≤ recLenAt b d

/-- A visitor gets the block, the offset of a record and that of the record before it; it stops
the iteration with `some`, and only then it may have changed the block. -/
abbrev Visit (α : Type) := Block → ℕ → Option ℕ → Option (Block × α)

/-- The records of one block. A record that is not `dirent_ok` ends the loop, so that `off` grows
by 8 at least and `bs` rounds are enough. -/
def walk {α : Type} (bs : ℕ) (fn : Visit α) (b : Block) : ℕ → ℕ → Option ℕ → Option (Block × α)
  | 0, _, _ => none
  | k + 1, off, prev =>
    if off < bs then
      if direntOk bs b off then
        match fn b off prev with
        | some r => some r
        | none => walk bs fn b k (off + recLenAt b off) (some off)
      else none
    else none

inductive Iterated (α : Type)
  | finished
  | stopped (blocks : List (Option Block)) (a : α)
  | failed

def Iterated.cons {α : Type} (b : Option Block) : Iterated α → Iterated α
  | .stopped bs a => .stopped (b :: bs) a
  | r => r

/-- `dir_iterate` over the blocks of a directory from the `i`-th on, a hole being `none`. `rd i`
says that the reads that fetch the `i`-th block succeed. -/
def dirIterate {α : Type} (bs : ℕ) (rd : ℕ → Bool) (fn : Visit α) :
    ℕ → List (Option Block) → Iterated α
  | _, [] => .finished
  | i, b :: rest =>
    if rd i then
      match b with
      | none => (dirIterate bs rd fn (i + 1) rest).cons none
      | some d =>
        match walk bs fn d bs 0 none with
        | some (d', a) => .stopped (some d' :: rest) a
        | none => (dirIterate bs rd fn (i + 1) rest).cons (some d)
    else .failed

def findVisit (name : Name) : Visit (ℕ × UInt8) := fun b d _ =>
  if inodeAt b d ≠ 0 ∧ nameAt b d = name then some (b, inodeAt b d, fileTypeAt b d) else none

def addVisit (name : Name) (ino : ℕ) (ft : UInt8) : Visit Unit := fun b d _ =>
  let need := recSize name.length
  let used := if inodeAt b d ≠ 0 then recSize (nameLenAt b d) else 0
  if recLenAt b d - used < need then none
  else if inodeAt b d ≠ 0 then
    let split := setRecLen (setRecLen b (d + used) (recLenAt b d - used)) d used
    some (setEntry split (d + used) ino ft name, ())
  else some (setEntry b d ino ft name, ())

def removeVisit (name : Name) : Visit Unit := fun b d prev =>
  if inodeAt b d ≠ 0 ∧ nameAt b d = name then
    match prev with
    | some p => some (setRecLen b p (recLenAt b p + recLenAt b d), ())
    | none => some (setInode b d 0, ())
  else none

def dot : Name := [46]
def dotdot : Name := [46, 46]

def emptyVisit : Visit Unit := fun b d _ =>
  if inodeAt b d = 0 ∨ nameAt b d = dot ∨ nameAt b d = dotdot then none else some (b, ())

def dotdotVisit (parent : ℕ) : Visit Unit := fun b d _ =>
  if nameAt b d = dotdot then some (setInode b d parent, ()) else none

abbrev Dir := List (Option Block)

def dirFind (bs : ℕ) (rd : ℕ → Bool) (dir : Dir) (name : Name) : ℕ :=
  match dirIterate bs rd (findVisit name) 0 dir with
  | .stopped _ a => a.1
  | _ => 0

inductive DirError
  | nametoolong
  | fbig
  | nospc
  | io
  | noent
  deriving DecidableEq, Repr

/-- What `dir_add` gets when it appends a block: what `bmap` returns for it (a fresh block, one that
was left behind the end of the directory, or an error), whether the block can be read, and whether
`write_inode` succeeds. -/
structure Growth where
  block : Except DirError Block
  readable : Bool := true
  written : Bool := true

def freshBlock (bs : ℕ) (b : Block) (ino : ℕ) (ft : UInt8) (name : Name) : Block :=
  setEntry (setRecLen b 0 bs) 0 ino ft name

def dirAdd (bs : ℕ) (rd : ℕ → Bool) (dir : Dir) (name : Name) (ino : ℕ) (ft : UInt8)
    (g : Growth) : Option DirError × Dir :=
  if nameMax < name.length then (some .nametoolong, dir)
  else
    match dirIterate bs rd (addVisit name ino ft) 0 dir with
    | .failed => (some .io, dir)
    | .stopped dir' _ => (none, dir')
    | .finished =>
      match g.block with
      | .error e => (some e, dir)
      | .ok b =>
        if g.readable then
          (if g.written then none else some .io, dir ++ [some (freshBlock bs b ino ft name)])
        else (some .io, dir)

def dirRemove (bs : ℕ) (rd : ℕ → Bool) (dir : Dir) (name : Name) (written : Bool) :
    Option DirError × Dir :=
  match dirIterate bs rd (removeVisit name) 0 dir with
  | .failed => (some .io, dir)
  | .finished => (some .noent, dir)
  | .stopped dir' _ => (if written then none else some .io, dir')

def dirIsEmpty (bs : ℕ) (rd : ℕ → Bool) (dir : Dir) : Bool :=
  match dirIterate bs rd emptyVisit 0 dir with
  | .stopped .. => false
  | _ => true

def setDotdot (bs : ℕ) (rd : ℕ → Bool) (dir : Dir) (parent : ℕ) : Dir :=
  match dirIterate bs rd (dotdotVisit parent) 0 dir with
  | .stopped dir' _ => dir'
  | _ => dir

end MyOS.Fs.Ext2

/-! Blocks that records tile, and what adding and removing a record does to the tiling. -/

namespace MyOS.Fs.Ext2

open Library

structure Rec where
  off : ℕ
  inode : ℕ
  recLen : ℕ
  fileType : UInt8
  name : Name
  deriving DecidableEq

def recAt (b : Block) (d : ℕ) : Rec :=
  ⟨d, inodeAt b d, recLenAt b d, fileTypeAt b d, nameAt b d⟩

structure Rec.Fits (bs : ℕ) (r : Rec) : Prop where
  header : 8 ≤ r.recLen
  aligned : r.recLen % 4 = 0
  inside : r.off + r.recLen ≤ bs
  name : recSize r.name.length ≤ r.recLen

def Tiled (bs : ℕ) (b : Block) : ℕ → List Rec → ℕ → Prop
  | off, [], stop => off = stop
  | off, r :: rs, stop => recAt b off = r ∧ r.Fits bs ∧ Tiled bs b (off + r.recLen) rs stop

def recordsFrom (bs : ℕ) (b : Block) : ℕ → ℕ → List Rec
  | 0, _ => []
  | k + 1, off =>
    if off < bs ∧ direntOk bs b off then
      recAt b off :: recordsFrom bs b k (off + recLenAt b off)
    else []

def records (bs : ℕ) (b : Block) : List Rec := recordsFrom bs b bs 0

variable {bs : ℕ} {b b' : Block} {d off stop : ℕ} {r : Rec} {rs : List Rec} {name : Name}
  {ft : UInt8} {ino n : ℕ}

section Records

lemma length_nameAt : (nameAt b d).length = nameLenAt b d := Bytes.length_load

lemma recSize_le : 8 + n ≤ recSize n := by unfold recSize; omega

lemma recSize_mod : recSize n % 4 = 0 := by unfold recSize; omega

lemma direntOk_iff : direntOk bs b d = true ↔ (recAt b d).Fits bs := by
  constructor
  · intro h
    simp only [direntOk, Bool.and_eq_true, decide_eq_true_eq, beq_iff_eq] at h
    obtain ⟨⟨⟨h₁, h₂⟩, h₃⟩, h₄⟩ := h
    exact ⟨h₁, h₂, h₃, by simpa [recAt, length_nameAt] using h₄⟩
  · intro h
    have h₄ := h.name
    simp only [recAt, length_nameAt] at h₄
    simp only [direntOk, Bool.and_eq_true, decide_eq_true_eq, beq_iff_eq]
    exact ⟨⟨⟨h.header, h.aligned⟩, h.inside⟩, h₄⟩

lemma recAt_congr (h : ∀ x, d ≤ x → x < d + 8 + nameLenAt b d → b' x = b x) :
    recAt b' d = recAt b d := by
  have hn : nameLenAt b' d = nameLenAt b d := by
    unfold nameLenAt
    rw [h (d + 6) (by omega) (by omega)]
  have hi : inodeAt b' d = inodeAt b d :=
    Bytes.read_congr fun x h₁ h₂ => h x h₁ (by omega)
  have hl : recLenAt b' d = recLenAt b d :=
    Bytes.read_congr fun x h₁ h₂ => h x (by omega) (by omega)
  have ht : fileTypeAt b' d = fileTypeAt b d := h (d + 7) (by omega) (by omega)
  have hm : nameAt b' d = nameAt b d := by
    unfold nameAt
    rw [hn]
    exact Bytes.load_congr fun x h₁ h₂ => h x (by omega) (by omega)
  simp only [recAt, hi, hl, ht, hm]

lemma Rec.Fits.name_le (h : r.Fits bs) : 8 + r.name.length ≤ r.recLen :=
  le_trans recSize_le h.name

end Records

section Writing

lemma setRecLen_of_not_mem {x : ℕ} (h : x < d + 4 ∨ d + 6 ≤ x) : setRecLen b d n x = b x :=
  Bytes.write_of_not_mem (by omega)

lemma setInode_of_not_mem {x : ℕ} (h : x < d ∨ d + 4 ≤ x) : setInode b d n x = b x :=
  Bytes.write_of_not_mem (by omega)

lemma setEntry_of_not_mem {x : ℕ} (h : x < d ∨ d + 4 ≤ x ∧ x < d + 6 ∨ d + 8 + name.length ≤ x) :
    setEntry b d ino ft name x = b x := by
  unfold setEntry
  rw [Bytes.store_of_not_mem (by omega), Bytes.store_of_not_mem (by simp; omega),
    setInode_of_not_mem (by omega)]

lemma recAt_setRecLen (h : n < 65536) : recAt (setRecLen b d n) d = { recAt b d with recLen := n } := by
  have hi : inodeAt (setRecLen b d n) d = inodeAt b d :=
    Bytes.read_write_of_disjoint (.inr (by omega))
  have hl : recLenAt (setRecLen b d n) d = n := Bytes.read_write_self (by simpa using h)
  have hn : nameLenAt (setRecLen b d n) d = nameLenAt b d := by
    unfold nameLenAt
    rw [setRecLen_of_not_mem (by omega)]
  have ht : fileTypeAt (setRecLen b d n) d = fileTypeAt b d := setRecLen_of_not_mem (by omega)
  have hm : nameAt (setRecLen b d n) d = nameAt b d := by
    unfold nameAt
    rw [hn]
    exact Bytes.load_congr fun x h₁ h₂ => setRecLen_of_not_mem (by omega)
  simp only [recAt, hi, hl, ht, hm]

lemma recAt_setInode (h : n < 2 ^ 32) : recAt (setInode b d n) d = { recAt b d with inode := n } := by
  have hi : inodeAt (setInode b d n) d = n := Bytes.read_write_self (by simpa using h)
  have hl : recLenAt (setInode b d n) d = recLenAt b d :=
    Bytes.read_write_of_disjoint (.inl (by omega))
  have hn : nameLenAt (setInode b d n) d = nameLenAt b d := by
    unfold nameLenAt
    rw [setInode_of_not_mem (by omega)]
  have ht : fileTypeAt (setInode b d n) d = fileTypeAt b d := setInode_of_not_mem (by omega)
  have hm : nameAt (setInode b d n) d = nameAt b d := by
    unfold nameAt
    rw [hn]
    exact Bytes.load_congr fun x h₁ h₂ => setInode_of_not_mem (by omega)
  simp only [recAt, hi, hl, ht, hm]

lemma recAt_setEntry (ft : UInt8) (hi : ino < 2 ^ 32) (hn : name.length ≤ nameMax) :
    recAt (setEntry b d ino ft name) d = ⟨d, ino, recLenAt b d, ft, name⟩ := by
  have hh : ∀ x, x < d + 8 → setEntry b d ino ft name x =
      Bytes.store (setInode b d ino) (d + 6) [UInt8.ofNat name.length, ft] x := by
    intro x hx
    exact Bytes.store_of_not_mem (by omega)
  have h₁ : inodeAt (setEntry b d ino ft name) d = ino := by
    calc inodeAt (setEntry b d ino ft name) d = inodeAt (setInode b d ino) d := by
          apply Bytes.read_congr
          intro x h₁ h₂
          rw [hh x (by omega), Bytes.store_of_not_mem (by omega)]
      _ = ino := Bytes.read_write_self (by simpa using hi)
  have h₂ : recLenAt (setEntry b d ino ft name) d = recLenAt b d :=
    Bytes.read_congr fun x h₁ h₂ => setEntry_of_not_mem (by omega)
  have h₃ : nameLenAt (setEntry b d ino ft name) d = name.length := by
    unfold nameLenAt
    rw [hh _ (by omega)]
    have : name.length < 256 := lt_of_le_of_lt hn (by decide)
    simp [Bytes.store, Nat.mod_eq_of_lt this]
  have h₄ : fileTypeAt (setEntry b d ino ft name) d = ft := by
    unfold fileTypeAt
    rw [hh _ (by omega)]
    simp [Bytes.store]
  have h₅ : nameAt (setEntry b d ino ft name) d = name := by
    unfold nameAt
    rw [h₃]
    exact Bytes.load_store_self rfl
  simp only [recAt, h₁, h₂, h₄, h₅]

end Writing

section Tiling

lemma Tiled.le (h : Tiled bs b off rs stop) : off ≤ stop := by
  induction rs generalizing off with
  | nil => exact le_of_eq h
  | cons r rs ih => exact le_trans (Nat.le_add_right off r.recLen) (ih h.2.2)

lemma Tiled.length_le (h : Tiled bs b off rs stop) : off + 8 * rs.length ≤ stop := by
  induction rs generalizing off with
  | nil => simpa using le_of_eq h
  | cons r rs ih =>
    have h₁ := h.2.1.header
    have h₂ := ih h.2.2
    rw [List.length_cons]
    omega

lemma tiled_append {ss : List Rec} : Tiled bs b off (rs ++ ss) stop ↔
    ∃ mid, Tiled bs b off rs mid ∧ Tiled bs b mid ss stop := by
  induction rs generalizing off with
  | nil => simp [Tiled]
  | cons r rs ih =>
    simp only [List.cons_append, Tiled, ih]
    constructor
    · rintro ⟨h₁, h₂, mid, h₃, h₄⟩
      exact ⟨mid, ⟨h₁, h₂, h₃⟩, h₄⟩
    · rintro ⟨mid, ⟨h₁, h₂, h₃⟩, h₄⟩
      exact ⟨h₁, h₂, mid, h₃, h₄⟩

lemma Tiled.congr (h : Tiled bs b off rs stop) (hb : ∀ x, off ≤ x → x < stop → b' x = b x) :
    Tiled bs b' off rs stop := by
  induction rs generalizing off with
  | nil => exact h
  | cons r rs ih =>
    obtain ⟨rfl, hr, ht⟩ := h
    have hle : off + recLenAt b off ≤ stop := ht.le
    have hname : 8 + (nameAt b off).length ≤ recLenAt b off := hr.name_le
    rw [length_nameAt] at hname
    refine ⟨recAt_congr fun x h₁ h₂ => hb x h₁ (by omega), hr, ?_⟩
    exact ih ht fun x h₁ h₂ => hb x (by omega) h₂

lemma Tiled.replace {l m m' t : List Rec} {p q : ℕ} (hl : Tiled bs b off l p)
    (hm : Tiled bs b' p m' q) (hpq : Tiled bs b p m q) (ht : Tiled bs b q t stop)
    (hb : ∀ x, x < p ∨ q ≤ x → b' x = b x) : Tiled bs b' off (l ++ m' ++ t) stop := by
  have hle := hpq.le
  rw [tiled_append]
  refine ⟨q, ?_, ht.congr fun x h₁ h₂ => hb x (.inr h₁)⟩
  rw [tiled_append]
  exact ⟨p, hl.congr fun x h₁ h₂ => hb x (.inl h₂), hm⟩

lemma Tiled.recordsFrom {k : ℕ} (h : Tiled bs b off rs bs) (hk : rs.length ≤ k) :
    recordsFrom bs b k off = rs := by
  induction rs generalizing off k with
  | nil =>
    cases k with
    | zero => rfl
    | succ k => exact if_neg fun hc => absurd hc.1 (by rw [h]; exact lt_irrefl _)
  | cons r rs ih =>
    obtain ⟨rfl, hr, ht⟩ := h
    cases k with
    | zero => simp at hk
    | succ k =>
      have h₁ := hr.header
      have h₂ := ht.le
      have hlt : off < bs := by omega
      unfold Ext2.recordsFrom
      rw [if_pos ⟨hlt, direntOk_iff.2 hr⟩]
      congr 1
      exact ih ht (by simpa using hk)

lemma Tiled.records (h : Tiled bs b 0 rs bs) : records bs b = rs :=
  h.recordsFrom (by have := h.length_le; omega)

end Tiling

section Walking

variable {α : Type} {fn : Visit α} {prev : Option ℕ}

def scan (fn : Visit α) (b : Block) : Option ℕ → List Rec → Option (Block × α)
  | _, [] => none
  | prev, r :: rs =>
    match fn b r.off prev with
    | some x => some x
    | none => scan fn b (some r.off) rs

lemma Tiled.walk {k : ℕ} (h : Tiled bs b off rs bs) (hk : rs.length ≤ k) :
    walk bs fn b k off prev = scan fn b prev rs := by
  induction rs generalizing off k prev with
  | nil =>
    cases k with
    | zero => rfl
    | succ k => exact if_neg (by rw [h]; exact lt_irrefl _)
  | cons r rs ih =>
    obtain ⟨rfl, hr, ht⟩ := h
    cases k with
    | zero => simp at hk
    | succ k =>
      have h₁ := hr.header
      have h₂ := ht.le
      have hlt : off < bs := by omega
      unfold Ext2.walk scan
      rw [if_pos hlt, if_pos (direntOk_iff.2 hr)]
      simp only [recAt]
      cases fn b off prev with
      | some x => rfl
      | none => exact ih ht (by simpa using hk)

lemma Tiled.walk_block (h : Tiled bs b 0 rs bs) : Ext2.walk bs fn b bs 0 none = scan fn b none rs :=
  h.walk (by have := h.length_le; omega)

lemma scan_none (h : scan fn b prev rs = none) : ∀ r ∈ rs, ∃ p, fn b r.off p = none := by
  induction rs generalizing prev with
  | nil => simp
  | cons r rs ih =>
    unfold scan at h
    intro x hx
    cases hf : fn b r.off prev with
    | some y => simp [hf] at h
    | none =>
      rw [hf] at h
      rcases List.mem_cons.1 hx with rfl | hx
      · exact ⟨prev, hf⟩
      · exact ih h x hx

def lastOff (prev : Option ℕ) (l : List Rec) : Option ℕ := (l.getLast?.map Rec.off).or prev

lemma scan_some {x : Block × α} (h : scan fn b prev rs = some x) :
    ∃ l r t, rs = l ++ r :: t ∧ fn b r.off (lastOff prev l) = some x ∧
      ∀ y ∈ l, ∃ p, fn b y.off p = none := by
  induction rs generalizing prev with
  | nil => simp [scan] at h
  | cons r rs ih =>
    unfold scan at h
    cases hf : fn b r.off prev with
    | some y =>
      rw [hf] at h
      cases h
      exact ⟨[], r, rs, rfl, by simpa [lastOff] using hf, by simp⟩
    | none =>
      rw [hf] at h
      obtain ⟨l, r', t, rfl, h₁, h₂⟩ := ih h
      refine ⟨r :: l, r', t, rfl, ?_, ?_⟩
      · rw [← h₁]
        congr 1
        rcases List.eq_nil_or_concat l with rfl | ⟨l', y, rfl⟩
        · simp [lastOff]
        · simp [lastOff, List.getLast?_cons]
      · intro y hy
        rcases List.mem_cons.1 hy with rfl | hy
        · exact ⟨prev, hf⟩
        · exact h₂ y hy

end Walking

end MyOS.Fs.Ext2
