import MyOS.Library.Bits
import MyOS.Library.Bytes
import MyOS.Library.Crashing

/-! The image of the small file system: its blocks, inodes, bitmap and directory. A block has 512 bytes
(`BLOK`), the image 256 blocks (`BLOKLAR`) and 32 inodes (`INODELAR`) of 12 block numbers (`TOGRI`). -/

namespace MyOS.Mfs

open Library Function

abbrev Blok : Type := ℕ → UInt8

abbrev Tasvir : Type := ℕ → Blok

def magik : ℕ := 0x4D465331
def bitmapBlok : ℕ := 1
def inodeBosh : ℕ := 2
def dataBosh : ℕ := 6

abbrev Buyruq (α : Type) : Type := Crashing Tasvir String α

def blokOqi (n : ℕ) : Buyruq Blok :=
  if n < 256 then Crashing.read fun d => d n else Crashing.fail ("blok " ++ toString n ++ " o'qilmadi")

def blokYoz (n : ℕ) (b : Blok) : Buyruq Unit := Crashing.write fun d => update d n b

def bmBor (m : Blok) (i : ℕ) : Bool := Bitmap.test m i
def bmYoq (m : Blok) (i : ℕ) : Blok := Bitmap.set m i
def bmOch (m : Blok) (i : ℕ) : Blok := Bitmap.clear m i

@[ext]
structure Inode where
  tur : UInt16 := 0
  nlink : UInt16 := 0
  hajm : UInt32 := 0
  blok : Vector UInt32 12 := Vector.replicate 12 0
  deriving DecidableEq

namespace Inode

def oqi (b : Blok) (a : ℕ) : Inode where
  tur := UInt16.ofNat (Bytes.read b a 2)
  nlink := UInt16.ofNat (Bytes.read b (a + 2) 2)
  hajm := UInt32.ofNat (Bytes.read b (a + 4) 4)
  blok := Vector.ofFn fun k => UInt32.ofNat (Bytes.read b (a + 8 + 4 * k) 4)

def raqamlarYoz (b : Blok) (a : ℕ) : List UInt32 → Blok
  | [] => b
  | w :: ws => raqamlarYoz (Bytes.write b a 4 w.toNat) (a + 4) ws

def yoz (b : Blok) (a : ℕ) (x : Inode) : Blok :=
  let b := Bytes.fill b a 64 0
  let b := Bytes.write b a 2 x.tur.toNat
  let b := Bytes.write b (a + 2) 2 x.nlink.toNat
  let b := Bytes.write b (a + 4) 4 x.hajm.toNat
  raqamlarYoz b (a + 8) x.blok.toList

def raqam (x : Inode) (k : ℕ) : ℕ := (x.blok.toList.getD k 0).toNat

def bloklar (x : Inode) : ℕ := (x.hajm.toNat + 511) / 512

variable {b b' : Blok} {a a' k : ℕ} {x : Inode}

lemma raqamlarYoz_of_not_mem {ws : List UInt32} (h : ¬ (a ≤ k ∧ k < a + 4 * ws.length)) :
    raqamlarYoz b a ws k = b k := by
  induction ws generalizing b a with
  | nil => rfl
  | cons w ws ih =>
    rw [List.length_cons] at h
    rw [raqamlarYoz, ih (by omega)]
    exact Bytes.write_of_not_mem (by omega)

lemma read_raqamlarYoz {ws : List UInt32} (hk : k < ws.length) :
    Bytes.read (raqamlarYoz b a ws) (a + 4 * k) 4 = ws[k].toNat := by
  induction ws generalizing b a k with
  | nil => exact absurd hk (Nat.not_lt_zero k)
  | cons w ws ih =>
    rw [raqamlarYoz]
    cases k with
    | zero =>
      have hrest : Bytes.read (raqamlarYoz (Bytes.write b a 4 w.toNat) (a + 4) ws) a 4 =
          Bytes.read (Bytes.write b a 4 w.toNat) a 4 :=
        Bytes.read_congr fun i _ hi => raqamlarYoz_of_not_mem (by omega)
      have hlt := w.toNat_lt
      have hat : a + 4 * 0 = a := rfl
      rw [hat, hrest]
      exact Bytes.read_write_self (by omega)
    | succ k =>
      have hat : a + 4 * (k + 1) = a + 4 + 4 * k := by ring
      rw [hat, ih (Nat.lt_of_succ_lt_succ hk)]
      rfl

lemma length_blok (x : Inode) : x.blok.toList.length = 12 := Vector.length_toList

lemma yoz_of_not_mem (h : ¬ (a ≤ k ∧ k < a + 64)) : yoz b a x k = b k := by
  have hlen := length_blok x
  simp (disch := omega) only [yoz, raqamlarYoz_of_not_mem, Bytes.write_of_not_mem, Bytes.fill_of_not_mem]

lemma read_raqamlarYoz_of_le {n : ℕ} {ws : List UInt32} (h : k + n ≤ a) :
    Bytes.read (raqamlarYoz b a ws) k n = Bytes.read b k n :=
  Bytes.read_congr fun i _ hi => raqamlarYoz_of_not_mem (by omega)

lemma oqi_yoz : oqi (yoz b a x) a = x := by
  have htur := x.tur.toNat_lt
  have hnlink := x.nlink.toNat_lt
  have hhajm := x.hajm.toNat_lt
  apply Inode.ext
  · simp (disch := omega) only [oqi, yoz, read_raqamlarYoz_of_le, Bytes.read_write_of_disjoint,
      Bytes.read_write_self, UInt16.ofNat_toNat]
  · simp (disch := omega) only [oqi, yoz, read_raqamlarYoz_of_le, Bytes.read_write_of_disjoint,
      Bytes.read_write_self, UInt16.ofNat_toNat]
  · simp (disch := omega) only [oqi, yoz, read_raqamlarYoz_of_le, Bytes.read_write_self, UInt32.ofNat_toNat]
  · apply Vector.ext
    intro k hk
    have hlt : k < x.blok.toList.length := (length_blok x).symm ▸ hk
    rw [oqi, Vector.getElem_ofFn, yoz, read_raqamlarYoz hlt, UInt32.ofNat_toNat]
    exact Vector.getElem_toList hlt

lemma oqi_congr (h : ∀ i < 64, b' (a + i) = b (a + i)) : oqi b' a = oqi b a := by
  have hread : ∀ k n, k + n ≤ 64 → Bytes.read b' (a + k) n = Bytes.read b (a + k) n := by
    intro k n hk
    refine Bytes.read_shift fun i hi => ?_
    rw [Nat.add_assoc]
    exact h (k + i) (by omega)
  have hblok : (Vector.ofFn fun k : Fin 12 => UInt32.ofNat (Bytes.read b' (a + 8 + 4 * k) 4)) =
      Vector.ofFn fun k : Fin 12 => UInt32.ofNat (Bytes.read b (a + 8 + 4 * k) 4) := by
    apply congrArg
    funext k
    rw [Nat.add_assoc, hread _ 4 (by omega)]
  have htur : Bytes.read b' a 2 = Bytes.read b a 2 := hread 0 2 (by omega)
  rw [oqi, oqi, htur, hread 2 2 (by omega), hread 4 4 (by omega), hblok]

end Inode

def inodeOl (d : Tasvir) (i : ℕ) : Inode := Inode.oqi (d (inodeBosh + i / 8)) (i % 8 * 64)

def inodeOqi (i : ℕ) : Buyruq Inode := do
  let b ← blokOqi (inodeBosh + i / 8)
  pure (Inode.oqi b (i % 8 * 64))

def inodeYoz (i : ℕ) (x : Inode) : Buyruq Unit := do
  let b ← blokOqi (inodeBosh + i / 8)
  blokYoz (inodeBosh + i / 8) (Inode.yoz b (i % 8 * 64) x)

def inodeQoy (d : Tasvir) (i : ℕ) (x : Inode) : Tasvir :=
  update d (inodeBosh + i / 8) (Inode.yoz (d (inodeBosh + i / 8)) (i % 8 * 64) x)

def blokAjrat (m : Blok) : Option ℕ := (List.range' dataBosh (256 - dataBosh)).find? fun i => !bmBor m i

def yukla : Buyruq Blok := do
  let b ← blokOqi 0
  if Bytes.read b 0 4 ≠ magik then Crashing.fail "bu mfs tasviri emas (sehrli son noto'g'ri)"
  else blokOqi bitmapBlok

def saqla (m : Blok) : Buyruq Unit := blokYoz bitmapBlok m

section Katalog

variable (k : Blok) (e : ℕ)

def yozuvInode : ℕ := Bytes.read k (16 * e) 2

def satr (l : List UInt8) : List UInt8 := l.takeWhile (· ≠ 0)

def yozuvNom : List UInt8 := satr (Bytes.load k (16 * e + 2) 14)

def inodeRaqamQoy (i : ℕ) : Blok := Bytes.write k (16 * e) 2 i

def nomQoy (nom : List UInt8) : Blok := Bytes.store k (16 * e + 2) (nom.take 13 ++ [0])

def katalogYukla : Buyruq (ℕ × Blok) := do
  let ildiz ← inodeOqi 0
  let b ← blokOqi (ildiz.raqam 0)
  pure (ildiz.raqam 0, b)

abbrev Nom : Type := { l : List UInt8 // 0 ∉ l }

def topish (nom : Nom) : Option ℕ :=
  (List.range 32).find? fun e => yozuvInode k e ≠ 0 ∧ yozuvNom k e = nom.1.take 14

end Katalog

section Views

variable {d : Tasvir} {m k b : Blok} {i j e f n : ℕ} {x : Inode} {nom : List UInt8}

lemma bmBor_bmYoq : bmBor (bmYoq m i) j = (decide (j = i) || bmBor m j) := Bitmap.test_set

lemma bmBor_bmOch : bmBor (bmOch m i) j = (!decide (j = i) && bmBor m j) := Bitmap.test_clear

lemma inodeOl_inodeQoy : inodeOl (inodeQoy d i x) j = if j = i then x else inodeOl d j := by
  by_cases hblok : inodeBosh + j / 8 = inodeBosh + i / 8
  · rw [inodeOl, inodeQoy, hblok, update_self]
    split_ifs with h
    · rw [h]
      exact Inode.oqi_yoz
    · rw [inodeOl, hblok]
      refine Inode.oqi_congr fun l hl => Inode.yoz_of_not_mem ?_
      omega
  · have hne : j ≠ i := by
      rintro rfl
      exact hblok rfl
    rw [inodeOl, inodeQoy, update_of_ne hblok, if_neg hne, inodeOl]

lemma inodeOl_update (hj : j < 32) (hn : n < 2 ∨ 6 ≤ n) : inodeOl (update d n b) j = inodeOl d j := by
  have hne : inodeBosh + j / 8 ≠ n := by
    rw [inodeBosh]
    omega
  rw [inodeOl, update_of_ne hne, inodeOl]

lemma inodeQoy_of_ne (hi : i < 32) (hn : n < 2 ∨ 6 ≤ n) : inodeQoy d i x n = d n := by
  refine update_of_ne ?_ _ _
  rw [inodeBosh]
  omega

lemma yozuvInode_inodeRaqamQoy (hi : i < 32) :
    yozuvInode (inodeRaqamQoy k e i) f = if f = e then i else yozuvInode k f := by
  split_ifs with h
  · rw [h]
    exact Bytes.read_write_self (by omega)
  · exact Bytes.read_write_of_disjoint (by omega)

lemma yozuvNom_inodeRaqamQoy : yozuvNom (inodeRaqamQoy k e i) f = yozuvNom k f := by
  refine congrArg satr (Bytes.load_congr fun l h₁ h₂ => Bytes.write_of_not_mem ?_)
  omega

lemma length_nom (nom : List UInt8) : (nom.take 13 ++ [0]).length ≤ 14 := by
  rw [List.length_append, List.length_take, List.length_singleton]
  omega

lemma yozuvInode_nomQoy : yozuvInode (nomQoy k e nom) f = yozuvInode k f := by
  have hlen := length_nom nom
  exact Bytes.read_store_of_disjoint (by omega)

lemma satr_append_zero {l l' : List UInt8} (h : 0 ∉ l) : satr (l ++ 0 :: l') = l := by
  rw [satr, List.takeWhile_append_of_pos fun c hc => by
    rw [decide_eq_true_eq]
    rintro rfl
    exact h hc]
  simp

lemma yozuvNom_nomQoy (h0 : 0 ∉ nom) (hlen : nom.length < 14) :
    yozuvNom (nomQoy k e nom) f = if f = e then nom else yozuvNom k f := by
  have htake : nom.take 13 = nom := List.take_of_length_le (by omega)
  have hsize : (nom ++ [0]).length = nom.length + 1 := by rw [List.length_append, List.length_singleton]
  split_ifs with h
  · rw [yozuvNom, nomQoy, htake, h]
    have hsplit : Bytes.load (Bytes.store k (16 * e + 2) (nom ++ [0])) (16 * e + 2) 14 =
        nom ++ 0 :: Bytes.load k (16 * e + 2 + (nom.length + 1)) (14 - (nom.length + 1)) := by
      have hk : 14 = nom.length + 1 + (14 - (nom.length + 1)) := by omega
      conv_lhs => rw [hk]
      rw [← Bytes.load_append, Bytes.load_store_self hsize, List.append_assoc]
      refine congrArg _ (congrArg _ (Bytes.load_congr fun l h₁ h₂ => Bytes.store_of_not_mem ?_))
      rw [hsize]
      omega
    rw [hsplit]
    exact satr_append_zero h0
  · have hle := length_nom nom
    refine congrArg satr (Bytes.load_congr fun l h₁ h₂ => Bytes.store_of_not_mem ?_)
    omega

lemma blokAjrat_some (h : blokAjrat m = some i) : 6 ≤ i ∧ i < 256 ∧ bmBor m i = false := by
  rw [blokAjrat] at h
  have hmem := List.mem_of_find?_eq_some h
  have hfree := List.find?_some h
  rw [List.mem_range'_1, dataBosh] at hmem
  rw [Bool.not_eq_true'] at hfree
  exact ⟨hmem.1, by omega, hfree⟩

lemma topish_some {nom : Nom} (h : topish k nom = some e) :
    e < 32 ∧ yozuvInode k e ≠ 0 ∧ yozuvNom k e = nom.1.take 14 := by
  rw [topish] at h
  have hfound := List.find?_some h
  rw [decide_eq_true_eq] at hfound
  exact ⟨List.mem_range.1 (List.mem_of_find?_eq_some h), hfound⟩

lemma topish_none {nom : Nom} (h : topish k nom = none) (he : e < 32) (hi : yozuvInode k e ≠ 0) :
    yozuvNom k e ≠ nom.1.take 14 := by
  rw [topish, List.find?_eq_none] at h
  have hno := h e (List.mem_range.2 he)
  rw [decide_eq_true_eq, not_and] at hno
  exact hno hi

end Views

end MyOS.Mfs

/-! The commands of the small file system. What they print is left out, but for the messages of `stderr`. -/

namespace MyOS.Mfs

open Library Crashing

def ildiz : Inode := { tur := 2, nlink := 1, hajm := 512, blok := (Vector.replicate 12 0).set 0 6 }

def super : Blok :=
  let b := Bytes.write (fun _ => 0) 0 4 magik
  let b := Bytes.write b 4 4 256
  let b := Bytes.write b 8 4 32
  Bytes.write b 12 4 dataBosh

def nollarYoz : ℕ → ℕ → Buyruq Unit
  | 0, _ => pure ()
  | r + 1, i => do
    blokYoz i fun _ => 0
    nollarYoz r (i + 1)

def boshBitmap : Blok := (List.range (dataBosh + 1)).foldl bmYoq fun _ => 0

def mkfs : Buyruq Unit := do
  nollarYoz 256 0
  blokYoz 0 super
  inodeYoz 0 ildiz
  saqla boshBitmap

def boshInode : List ℕ → Buyruq (Option ℕ)
  | [] => pure none
  | i :: l => do
    let x ← inodeOqi i
    if x.tur = 0 then pure (some i) else boshInode l

def boshYozuv (k : Blok) : Option ℕ := (List.range 32).find? fun e => yozuvInode k e = 0

def qism (manba : List UInt8) (k : ℕ) : Blok := fun i => if i < 512 then manba.getD (512 * k + i) 0 else 0

def malumotYoz (manba : List UInt8) : ℕ → ℕ → Blok → Inode → Buyruq (Blok × Inode)
  | 0, _, m, x => pure (m, x)
  | r + 1, k, m, x =>
    match blokAjrat m with
    | none => fail "disk to'lgan"
    | some j => do
      blokYoz j (qism manba k)
      malumotYoz manba r (k + 1) (bmYoq m j) { x with blok := x.blok.setIfInBounds k (UInt32.ofNat j) }

def yangiInode (manba : List UInt8) : Inode := { tur := 1, nlink := 1, hajm := UInt32.ofNat manba.length }

/-- The end of `put`, with the free inode `i` and the free entry `e`: data, bitmap, inode, directory. -/
def putYoz (manba : List UInt8) (nom : Nom) (m : Blok) (kb : ℕ) (k : Blok) (i e : ℕ) : Buyruq Unit := do
  let (m, x) ← malumotYoz manba ((manba.length + 511) / 512) 0 m (yangiInode manba)
  saqla m
  inodeYoz i x
  blokYoz kb (nomQoy (inodeRaqamQoy k e i) e nom)

def put (manba : List UInt8) (nom : Nom) : Buyruq Unit :=
  if 12 * 512 < manba.length then fail "juda katta"
  else do
    let m ← yukla
    let (kb, k) ← katalogYukla
    if 14 ≤ nom.1.length ∨ (topish k nom).isSome then fail "nom noto'g'ri yoki band"
    else do
      let i ← boshInode (List.range' 1 31)
      match i, boshYozuv k with
      | some i, some e => putYoz manba nom m kb k i e
      | _, _ => fail "joy yo'q (inode yoki katalog yozuvi tugagan)"

def rmYoz (m : Blok) (kb : ℕ) (k : Blok) (e : ℕ) : Buyruq Unit := do
  let x ← inodeOqi (yozuvInode k e)
  blokYoz kb (inodeRaqamQoy k e 0)
  inodeYoz (yozuvInode k e) {}
  saqla ((List.range x.bloklar).foldl (fun m i => bmOch m (x.raqam i)) m)

def rm (nom : Nom) : Buyruq Unit := do
  let m ← yukla
  let (kb, k) ← katalogYukla
  match topish k nom with
  | none => fail "bunday fayl yo'q"
  | some e => rmYoz m kb k e

def catYoz (x : Inode) : ℕ → ℕ → Buyruq (List UInt8)
  | 0, _ => pure []
  | r + 1, i => do
    let b ← blokOqi (x.raqam i)
    let l ← catYoz x r (i + 1)
    pure (Bytes.load b 0 (min (x.hajm.toNat - 512 * i) 512) ++ l)

def cat (nom : Nom) : Buyruq (List UInt8) := do
  let _ ← yukla
  let (_, k) ← katalogYukla
  match topish k nom with
  | none => fail "bunday fayl yo'q"
  | some e => do
    let x ← inodeOqi (yozuvInode k e)
    catYoz x x.bloklar 0

def blokSoni (x : Inode) : ℕ := (x.hajm.toNat + 511) % 2 ^ 32 / 512

def belgila (x : Inode) (b : ℕ → Bool) : ℕ → Bool :=
  (List.range (min (blokSoni x) 12)).foldl
    (fun b k => if x.raqam k < dataBosh ∨ 256 ≤ x.raqam k then b else Function.update b (x.raqam k) true) b

def ishlatiladi : List ℕ → (ℕ → Bool) → Buyruq (ℕ → Bool)
  | [], b => pure b
  | i :: l, b => do
    let x ← inodeOqi i
    if x.tur = 0 then ishlatiladi l b else ishlatiladi l (belgila x b)

def tekshir (tuzatish : Bool) (b : ℕ → Bool) (s : Blok × ℕ) (i : ℕ) : Blok × ℕ :=
  if bmBor s.1 i = true ∧ b i = false then (if tuzatish then bmOch s.1 i else s.1, s.2 + 1)
  else if bmBor s.1 i = false ∧ b i = true then (if tuzatish then bmYoq s.1 i else s.1, s.2 + 1)
  else s

def fsck (tuzatish : Bool) : Buyruq Bool := do
  let m ← yukla
  let b ← ishlatiladi (List.range 32) fun i => decide (i < dataBosh)
  let s := (List.range' dataBosh (256 - dataBosh)).foldl (tekshir tuzatish b) (m, 0)
  if tuzatish ∧ s.2 ≠ 0 then do
    saqla s.1
    pure (decide (s.2 ≠ 0 ∧ tuzatish = false))
  else pure (decide (s.2 ≠ 0 ∧ tuzatish = false))

end MyOS.Mfs
