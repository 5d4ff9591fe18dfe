import MyOS.Kadrlar.Yukla
import MyOS.Library.Bytes

/-! The binary format of the employees. -/

namespace MyOS.Kadrlar

open Library

def ikkilikSehr : List UInt8 := ['K', 'D', 'R', '1'].map fun c => UInt8.ofNat c.toNat

def ikkilikSarlavha : ℕ := 8
def ikkilikYozuv : ℕ := 48

def nazoratQadam (m : ℕ → UInt8) (a : ℕ) (s : ℕ × ℕ) (i : ℕ) : ℕ × ℕ :=
  let s₁ := (s.1 + (m (a + i)).toNat) % 255
  (s₁, (s.2 + s₁) % 255)

def nazorat16 (m : ℕ → UInt8) (a uzunlik : ℕ) : ℕ :=
  let s := (List.range uzunlik).foldl (nazoratQadam m a) (0, 0)
  s.2 <<< 8 ||| s.1

def yozuvMaydonlari (m : ℕ → UInt8) (a : ℕ) (x : Xodim) : ℕ → UInt8 :=
  let m := Bytes.fill m a ikkilikYozuv 0
  let m := Bytes.write m a 2 (x.id.toUInt32.toNat % 2 ^ 16)
  let m := Bytes.write m (a + 2) 1 x.toifa.toUInt8.toNat
  let m := Bytes.write m (a + 3) 1 x.bayroq.toNat
  let m := Bytes.write m (a + 4) 8 x.tarif.toUInt64.toNat
  let m := Bytes.write m (a + 12) 4 x.oddiyDaq.toUInt32.toNat
  let m := Bytes.write m (a + 16) 4 x.qoshDaq.toUInt32.toNat
  Bytes.store m (a + 20) x.ism.toList

def yozuvYoz (m : ℕ → UInt8) (a : ℕ) (x : Xodim) : ℕ → UInt8 :=
  let m := yozuvMaydonlari m a x
  Bytes.write m (a + 44) 2 (nazorat16 m a 44)

def oqilgan (m : ℕ → UInt8) (a : ℕ) : Xodim where
  id := Int32.ofNat (Bytes.read m a 2)
  toifa := (m (a + 2)).toUInt32
  bayroq := m (a + 3)
  tarif := (UInt64.ofNat (Bytes.read m (a + 4) 8)).toInt64
  oddiyDaq := (UInt32.ofNat (Bytes.read m (a + 12) 4)).toInt32
  qoshDaq := (UInt32.ofNat (Bytes.read m (a + 16) 4)).toInt32
  ism := (Vector.ofFn fun i => m (a + 20 + i)).set (ismUz - 1) 0

def Yaroqsiz (x : Xodim) : Prop :=
  x.id < 1000 ∨ 9999 < x.id ∨ tSoni ≤ x.toifa.toNat ∨ x.tarif ≤ 0 ∨ tarifMaks < x.tarif ∨
    x.oddiyDaq < 0 ∨ x.qoshDaq < 0 ∨ oyMaksDaq < x.oddiyDaq + x.qoshDaq ∨ bayroqBor x.bayroq (~~~ fHammasi)

instance (x : Xodim) : Decidable (Yaroqsiz x) := inferInstanceAs (Decidable (_ ∨ _))

def yozuvOqi (m : ℕ → UInt8) (a : ℕ) : Except String Xodim :=
  if Bytes.read m (a + 44) 2 ≠ nazorat16 m a 44 then .error "nazorat yig'indisi mos emas (yozuv buzilgan)"
  else if Yaroqsiz (oqilgan m a) then .error "maydon qiymati yaroqsiz"
  else .ok (oqilgan m a)

def yozuvlarYoz (m : ℕ → UInt8) (a : ℕ) : List Xodim → ℕ → UInt8
  | [] => m
  | x :: l => yozuvlarYoz (yozuvYoz m a x) (a + ikkilikYozuv) l

def sarlavha (n : ℕ) : ℕ → UInt8 :=
  let b := Bytes.store (fun _ => 0) 0 ikkilikSehr
  let b := Bytes.write b 4 2 1
  Bytes.write b 6 2 n

def ikkilikSaqla (o : Ombor) : Option (List UInt8) :=
  let n := o.a.length
  if 0xFFFF < n then none
  else
    some (Bytes.load (yozuvlarYoz (sarlavha n) ikkilikSarlavha o.a) 0 (ikkilikSarlavha + n * ikkilikYozuv))

def faylQisqa (soni i : ℕ) : String :=
  "fayl qisqa: " ++ toString soni ++ " ta yozuv e'lon qilingan, " ++ toString i ++ " tasi o'qildi"

def versiyaXato (v : ℕ) : String := "versiya " ++ toString v ++ " qo'llab-quvvatlanmaydi"

def bufer (l : List UInt8) : ℕ → UInt8 := fun i => l.getD i 0

def yozuvlarYukla (realloc : ℕ → Bool) (soni : ℕ) : ℕ → ℕ → List UInt8 → Ombor × Yuklash → Ombor × Yuklash
  | 0, _, _, s => s
  | k + 1, i, f, s =>
    if f.length < ikkilikYozuv then
      (s.1, { s.2 with rad := s.2.rad + (soni - i)
                       stderr := s.2.stderr ++ [(i, faylQisqa soni i)] })
    else
      match yozuvOqi (bufer (f.take ikkilikYozuv)) 0 with
      | .error sabab => yozuvlarYukla realloc soni k (i + 1) (f.drop ikkilikYozuv) (s.1, radEt (i + 1) sabab s.2)
      | .ok x =>
        let (o, q) := omborQosh (realloc i) s.1 x
        if q ≠ 0 then
          yozuvlarYukla realloc soni k (i + 1) (f.drop ikkilikYozuv)
            (o, radEt (i + 1) "ID takrori yoki xotira yetmadi" s.2)
        else
          yozuvlarYukla realloc soni k (i + 1) (f.drop ikkilikYozuv) (o, { s.2 with qabul := s.2.qabul + 1 })

def ikkilikYukla (realloc : ℕ → Bool) (f : List UInt8) (o : Ombor) (h : Yuklash) :
    Except String (Ombor × Yuklash) :=
  if f.length < ikkilikSarlavha ∨ f.take 4 ≠ ikkilikSehr then
    .error "bu KDR1 fayli emas (sehrli baytlar noto'g'ri)"
  else
    let sar := bufer (f.take ikkilikSarlavha)
    if Bytes.read sar 4 2 ≠ 1 then .error (versiyaXato (Bytes.read sar 4 2))
    else
      let soni := Bytes.read sar 6 2
      .ok (yozuvlarYukla realloc soni soni 0 (f.drop ikkilikSarlavha) (o, h))

section Limits

variable {m : ℕ → UInt8} {a : ℕ} {x : Xodim}

lemma toInt_toInt32 {n : ℕ} (h : n < 2 ^ 32) :
    (UInt32.ofNat n).toInt32.toInt = if n < 2 ^ 31 then (n : ℤ) else n - 2 ^ 32 := by
  have hbits : (UInt32.ofNat n).toInt32.toBitVec = BitVec.ofNat 32 n := rfl
  rw [Int32.toInt, hbits, BitVec.toInt_eq_toNat_cond, BitVec.toNat_ofNat]
  split_ifs <;> omega

lemma toInt_toInt64 {n : ℕ} (h : n < 2 ^ 64) :
    (UInt64.ofNat n).toInt64.toInt = if n < 2 ^ 63 then (n : ℤ) else n - 2 ^ 64 := by
  have hbits : (UInt64.ofNat n).toInt64.toBitVec = BitVec.ofNat 64 n := rfl
  rw [Int64.toInt, hbits, BitVec.toInt_eq_toNat_cond, BitVec.toNat_ofNat]
  split_ifs <;> omega

variable (m a) in
lemma oqilgan_id : (oqilgan m a).id.toInt = Bytes.read m a 2 := by
  have hlt : Bytes.read m a 2 < 256 ^ 2 := Bytes.read_lt
  exact Int32.toInt_ofNat_of_lt (by omega)

variable (m a) in
lemma oqilgan_toifa : (oqilgan m a).toifa.toNat = (m (a + 2)).toNat := UInt8.toNat_toUInt32 _

variable (m a) in
lemma oqilgan_tarif : (oqilgan m a).tarif.toInt =
    if Bytes.read m (a + 4) 8 < 2 ^ 63 then (Bytes.read m (a + 4) 8 : ℤ)
    else Bytes.read m (a + 4) 8 - 2 ^ 64 := by
  have hlt : Bytes.read m (a + 4) 8 < 256 ^ 8 := Bytes.read_lt
  exact toInt_toInt64 (by omega)

lemma oqilgan_daq (k : ℕ) : (UInt32.ofNat (Bytes.read m k 4)).toInt32.toInt =
    if Bytes.read m k 4 < 2 ^ 31 then (Bytes.read m k 4 : ℤ) else Bytes.read m k 4 - 2 ^ 32 := by
  have hlt : Bytes.read m k 4 < 256 ^ 4 := Bytes.read_lt
  exact toInt_toInt32 (by omega)

lemma daq_le_iff {d e : Int32} (hd : 0 ≤ d.toInt) (he : 0 ≤ e.toInt) :
    (d + e).toInt ≤ oyMaksDaq.toInt ↔ d.toInt + e.toInt ≤ oyMaksDaq.toInt ∨ 2 ^ 31 ≤ d.toInt + e.toInt := by
  have hmaks : oyMaksDaq.toInt = 44640 := rfl
  have hdlt := d.toInt_lt
  have helt := e.toInt_lt
  by_cases hbig : d.toInt + e.toInt < 2 ^ 31
  · rw [int32_add (by omega)]
    omega
  · have hwrap : (d + e).toInt = d.toInt + e.toInt - 2 ^ 32 := by
      rw [Int32.toInt_add, ← Int.sub_bmod_right]
      exact Int.bmod_eq_of_le (by omega) (by omega)
    omega

lemma not_yaroqsiz_iff : ¬ Yaroqsiz x ↔
    (1000 ≤ x.id.toInt ∧ x.id.toInt ≤ 9999) ∧ x.toifa.toNat < tSoni ∧
      (1 ≤ x.tarif.toInt ∧ x.tarif.toInt ≤ tarifMaks.toInt) ∧ 0 ≤ x.oddiyDaq.toInt ∧ 0 ≤ x.qoshDaq.toInt ∧
      (x.oddiyDaq.toInt + x.qoshDaq.toInt ≤ oyMaksDaq.toInt ∨ 2 ^ 31 ≤ x.oddiyDaq.toInt + x.qoshDaq.toInt) ∧
      ¬ bayroqBor x.bayroq (~~~ fHammasi) := by
  have h1000 : (1000 : Int32).toInt = 1000 := rfl
  have h9999 : (9999 : Int32).toInt = 9999 := rfl
  have h0 : (0 : Int32).toInt = 0 := rfl
  have h0' : (0 : Int64).toInt = 0 := rfl
  simp only [Yaroqsiz, not_or, Int32.lt_iff_toInt_lt, Int64.lt_iff_toInt_lt, Int64.le_iff_toInt_le, not_lt, not_le,
    h1000, h9999, h0, h0']
  constructor
  · rintro ⟨hid, hid', ht, hf, hf', ho, hq, hd, hb⟩
    exact ⟨⟨hid, hid'⟩, ht, ⟨hf, hf'⟩, ho, hq, (daq_le_iff ho hq).1 hd, hb⟩
  · rintro ⟨⟨hid, hid'⟩, ht, ⟨hf, hf'⟩, ho, hq, hd, hb⟩
    exact ⟨hid, hid', ht, hf, hf', ho, hq, (daq_le_iff ho hq).2 hd, hb⟩

lemma yozuvOqi_ok : yozuvOqi m a = .ok x ↔
    Bytes.read m (a + 44) 2 = nazorat16 m a 44 ∧ ¬ Yaroqsiz (oqilgan m a) ∧ oqilgan m a = x := by
  rw [yozuvOqi]
  split_ifs with hn hy
  · exact iff_of_false nofun fun h => hn h.1
  · exact iff_of_false nofun fun h => h.2.1 hy
  · rw [Except.ok.injEq]
    exact ⟨fun h => ⟨not_not.1 hn, hy, h⟩, fun h => h.2.2⟩

structure Toshadi (m : ℕ → UInt8) (a : ℕ) : Prop where
  nazorat : Bytes.read m (a + 44) 2 = nazorat16 m a 44
  id : 1000 ≤ Bytes.read m a 2 ∧ Bytes.read m a 2 ≤ 9999
  toifa : (m (a + 2)).toNat < tSoni
  bayroq : ¬ bayroqBor (m (a + 3)) (~~~ fHammasi)
  tarif : 1 ≤ Bytes.read m (a + 4) 8 ∧ Bytes.read m (a + 4) 8 ≤ 100000000000
  oddiyDaq : Bytes.read m (a + 12) 4 < 2 ^ 31
  qoshDaq : Bytes.read m (a + 16) 4 < 2 ^ 31
  daq : 2 ^ 31 ≤ Bytes.read m (a + 12) 4 + Bytes.read m (a + 16) 4

lemma toshadi_iff : Toshadi m a ↔
    Bytes.read m (a + 44) 2 = nazorat16 m a 44 ∧ ¬ Yaroqsiz (oqilgan m a) ∧
      2 ^ 31 ≤ (oqilgan m a).oddiyDaq.toInt + (oqilgan m a).qoshDaq.toInt := by
  have hid := oqilgan_id m a
  have htoifa := oqilgan_toifa m a
  have htarif := oqilgan_tarif m a
  have hod : (oqilgan m a).oddiyDaq.toInt = _ := oqilgan_daq (m := m) (a + 12)
  have hqd : (oqilgan m a).qoshDaq.toInt = _ := oqilgan_daq (m := m) (a + 16)
  have hmaks : tarifMaks.toInt = 100000000000 := rfl
  have hlt₈ : Bytes.read m (a + 4) 8 < 256 ^ 8 := Bytes.read_lt
  have hlt₁₂ : Bytes.read m (a + 12) 4 < 256 ^ 4 := Bytes.read_lt
  have hlt₁₆ : Bytes.read m (a + 16) 4 < 256 ^ 4 := Bytes.read_lt
  rw [not_yaroqsiz_iff, hid, htoifa, htarif, hod, hqd, hmaks]
  constructor
  · intro ⟨hn, hi, ht, hb, hf, ho, hq, hd⟩
    rw [if_pos (by omega), if_pos ho, if_pos hq]
    exact ⟨hn, ⟨by omega, ht, by omega, by omega, by omega, .inr (by omega), hb⟩, by omega⟩
  · rintro ⟨hn, ⟨hi, ht, hf, ho, hq, -, hb⟩, hd⟩
    have ho : Bytes.read m (a + 12) 4 < 2 ^ 31 := by split_ifs at ho <;> omega
    have hq : Bytes.read m (a + 16) 4 < 2 ^ 31 := by split_ifs at hq <;> omega
    have hf₈ : Bytes.read m (a + 4) 8 < 2 ^ 63 := by split_ifs at hf <;> omega
    rw [if_pos ho, if_pos hq] at hd
    rw [if_pos hf₈] at hf
    exact ⟨hn, by omega, ht, hb, by omega, ho, hq, by omega⟩

lemma chegarada_iff (h : ¬ Yaroqsiz (oqilgan m a)) : (oqilgan m a).Chegarada ↔
    (oqilgan m a).oddiyDaq.toInt + (oqilgan m a).qoshDaq.toInt < 2 ^ 31 := by
  have hmaks : oyMaksDaq.toInt = 44640 := rfl
  obtain ⟨hid, htoifa, htarif, hod, hqd, hdaq, hb⟩ := not_yaroqsiz_iff.1 h
  constructor
  · intro hc
    have := hc.daq
    omega
  · intro hlt
    have hism : (oqilgan m a).ism[ismUz - 1] = 0 := Vector.getElem_set_self _
    exact ⟨hid, htoifa, hb, hism, htarif, hod, hqd, by omega⟩

lemma yozuvOqi_chegarada_iff : (∀ x, yozuvOqi m a = .ok x → x.Chegarada ∧
      (xodimHisobla x).Safe fun n => 0 ≤ n.sof.toInt ∧ n.sof.toInt ≤ n.brutto.toInt) ↔ ¬ Toshadi m a := by
  constructor
  · intro h ht
    obtain ⟨hn, hy, hd⟩ := toshadi_iff.1 ht
    have hc := (chegarada_iff hy).1 (h _ (yozuvOqi_ok.2 ⟨hn, hy, rfl⟩)).1
    omega
  · intro ht x hx
    obtain ⟨hn, hy, rfl⟩ := yozuvOqi_ok.1 hx
    have hc : (oqilgan m a).Chegarada := by
      rw [chegarada_iff hy]
      by_contra hd
      exact ht (toshadi_iff.2 ⟨hn, hy, not_lt.1 hd⟩)
    exact ⟨hc, xodimHisobla_safe hc⟩

end Limits

section RoundTrip

variable {m m' : ℕ → UInt8} {a b : ℕ} {x : Xodim}

lemma nazorat16_congr {n : ℕ} (h : ∀ i < n, m' (b + i) = m (a + i)) : nazorat16 m' b n = nazorat16 m a n := by
  have hfold : (List.range n).foldl (nazoratQadam m' b) (0, 0) = (List.range n).foldl (nazoratQadam m a) (0, 0) := by
    refine List.foldl_ext _ _ _ fun s i hi => ?_
    rw [nazoratQadam, nazoratQadam, h i (List.mem_range.1 hi)]
  rw [nazorat16, nazorat16, hfold]

lemma nazorat16_lt (m : ℕ → UInt8) (a n : ℕ) : nazorat16 m a n < 256 ^ 2 := by
  have hsum : ∀ n, ((List.range n).foldl (nazoratQadam m a) (0, 0)).1 < 255 ∧
      ((List.range n).foldl (nazoratQadam m a) (0, 0)).2 < 255 := by
    intro n
    induction n with
    | zero => exact ⟨Nat.zero_lt_succ _, Nat.zero_lt_succ _⟩
    | succ n ih =>
      rw [List.range_succ, List.foldl_append]
      exact ⟨Nat.mod_lt _ (by decide), Nat.mod_lt _ (by decide)⟩
  obtain ⟨h₁, h₂⟩ := hsum n
  have hor : nazorat16 m a n < 2 ^ 16 := by
    apply Nat.or_lt_two_pow
    · rw [Nat.shiftLeft_eq]
      omega
    · omega
  exact hor

lemma oqilgan_congr (h : ∀ i < 44, m' (b + i) = m (a + i)) : oqilgan m' b = oqilgan m a := by
  have hread : ∀ k n, k + n ≤ 44 → Bytes.read m' (b + k) n = Bytes.read m (a + k) n := by
    intro k n hk
    refine Bytes.read_shift fun i hi => ?_
    rw [Nat.add_assoc, Nat.add_assoc]
    exact h (k + i) (by omega)
  have hism : (Vector.ofFn fun i : Fin ismUz => m' (b + 20 + i)) = Vector.ofFn fun i : Fin ismUz => m (a + 20 + i) := by
    apply congrArg
    funext i
    have hi : (i : ℕ) < 24 := i.isLt
    rw [Nat.add_assoc, Nat.add_assoc]
    exact h (20 + i) (by omega)
  have hid : Bytes.read m' b 2 = Bytes.read m a 2 := hread 0 2 (by omega)
  rw [oqilgan, oqilgan, hid, hread 4 8 (by omega), hread 12 4 (by omega), hread 16 4 (by omega), h 2 (by omega),
    h 3 (by omega), hism]

lemma yozuvOqi_congr (h : ∀ i < 48, m' (b + i) = m (a + i)) : yozuvOqi m' b = yozuvOqi m a := by
  have hn : Bytes.read m' (b + 44) 2 = Bytes.read m (a + 44) 2 := by
    refine Bytes.read_shift fun i hi => ?_
    rw [Nat.add_assoc, Nat.add_assoc]
    exact h (44 + i) (by omega)
  rw [yozuvOqi, yozuvOqi, hn, nazorat16_congr fun i hi => h i (by omega), oqilgan_congr fun i hi => h i (by omega)]

lemma toUInt32_toNat {v : Int32} (h : 0 ≤ v.toInt) : (v.toUInt32.toNat : ℤ) = v.toInt := by
  have hcond := BitVec.toInt_eq_toNat_cond v.toBitVec
  have hint : v.toBitVec.toInt = v.toInt := rfl
  have hnat : v.toUInt32.toNat = v.toBitVec.toNat := rfl
  rw [hint] at hcond
  rw [hnat]
  split_ifs at hcond <;> omega

section Fields

variable (m a x)

lemma length_ism : x.ism.toList.length = 24 := Vector.length_toList

lemma maydon_id : Bytes.read (yozuvMaydonlari m a x) a 2 = x.id.toUInt32.toNat % 2 ^ 16 := by
  simp (disch := omega) only [yozuvMaydonlari, Bytes.read_store_of_disjoint, Bytes.read_write_of_disjoint,
    Bytes.read_write_self]

lemma maydon_toifa : yozuvMaydonlari m a x (a + 2) = x.toifa.toUInt8 := by
  simp (disch := omega) only [yozuvMaydonlari, Bytes.store_of_not_mem, Bytes.write_of_not_mem, Bytes.write_one]

lemma maydon_bayroq : yozuvMaydonlari m a x (a + 3) = x.bayroq := by
  simp (disch := omega) only [yozuvMaydonlari, Bytes.store_of_not_mem, Bytes.write_of_not_mem, Bytes.write_one]

lemma maydon_tarif : Bytes.read (yozuvMaydonlari m a x) (a + 4) 8 = x.tarif.toUInt64.toNat := by
  have hism := length_ism x
  have hlt := x.tarif.toUInt64.toNat_lt
  simp (disch := omega) only [yozuvMaydonlari, Bytes.read_store_of_disjoint, Bytes.read_write_of_disjoint,
    Bytes.read_write_self]

lemma maydon_oddiyDaq : Bytes.read (yozuvMaydonlari m a x) (a + 12) 4 = x.oddiyDaq.toUInt32.toNat := by
  have hism := length_ism x
  have hlt := x.oddiyDaq.toUInt32.toNat_lt
  simp (disch := omega) only [yozuvMaydonlari, Bytes.read_store_of_disjoint, Bytes.read_write_of_disjoint,
    Bytes.read_write_self]

lemma maydon_qoshDaq : Bytes.read (yozuvMaydonlari m a x) (a + 16) 4 = x.qoshDaq.toUInt32.toNat := by
  have hism := length_ism x
  have hlt := x.qoshDaq.toUInt32.toNat_lt
  simp (disch := omega) only [yozuvMaydonlari, Bytes.read_store_of_disjoint, Bytes.read_write_self]

lemma maydon_ism : (Vector.ofFn fun i : Fin ismUz => yozuvMaydonlari m a x (a + 20 + i)) = x.ism := by
  apply Vector.ext
  intro i hi
  have hlt : i < x.ism.toList.length := (length_ism x).symm ▸ hi
  rw [Vector.getElem_ofFn, yozuvMaydonlari, Bytes.store_of_mem hlt]
  exact Vector.getElem_toList hlt

end Fields

lemma oqilgan_yozuvMaydonlari (hx : x.Chegarada) : oqilgan (yozuvMaydonlari m a x) a = x := by
  have hsoni : tSoni = 4 := rfl
  apply Xodim.ext
  · have hid := hx.id
    have hnat := toUInt32_toNat (v := x.id) (by omega)
    rw [← Int32.toInt_inj, oqilgan_id, maydon_id]
    omega
  · rw [oqilgan, maydon_ism, ← hx.ism]
    exact Vector.set_getElem_self _
  · have htoifa := hx.toifa
    rw [← UInt32.toNat_inj, oqilgan_toifa, maydon_toifa, UInt32.toNat_toUInt8]
    omega
  · exact maydon_bayroq m a x
  · rw [oqilgan, maydon_tarif, UInt64.ofNat_toNat, Int64.toInt64_toUInt64]
  · rw [oqilgan, maydon_oddiyDaq, UInt32.ofNat_toNat, Int32.toInt32_toUInt32]
  · have hread : (oqilgan (yozuvMaydonlari m a x) a).qoshDaq =
        (UInt32.ofNat (Bytes.read (yozuvMaydonlari m a x) (a + 16) 4)).toInt32 := rfl
    rw [hread, maydon_qoshDaq, UInt32.ofNat_toNat, Int32.toInt32_toUInt32]

lemma yozuvYoz_apply {i : ℕ} (h : i < 44) : yozuvYoz m a x (a + i) = yozuvMaydonlari m a x (a + i) :=
  Bytes.write_of_not_mem (by omega)

lemma not_yaroqsiz_of_chegarada (hx : x.Chegarada) : ¬ Yaroqsiz x :=
  not_yaroqsiz_iff.2 ⟨hx.id, hx.toifa, hx.tarif, hx.oddiyDaq, hx.qoshDaq, .inl hx.daq, hx.bayroq⟩

lemma yozuvOqi_yozuvYoz (hx : x.Chegarada) : yozuvOqi (yozuvYoz m a x) a = .ok x := by
  have hx' : oqilgan (yozuvYoz m a x) a = x :=
    (oqilgan_congr fun i hi => yozuvYoz_apply hi).trans (oqilgan_yozuvMaydonlari hx)
  refine yozuvOqi_ok.2 ⟨?_, hx'.symm ▸ not_yaroqsiz_of_chegarada hx, hx'⟩
  rw [nazorat16_congr fun i hi => yozuvYoz_apply hi, yozuvYoz]
  exact Bytes.read_write_self (nazorat16_lt _ _ _)

lemma yozuvYoz_of_not_mem {i : ℕ} (h : ¬ (a ≤ i ∧ i < a + 48)) : yozuvYoz m a x i = m i := by
  have hism := length_ism x
  have hhajm : ikkilikYozuv = 48 := rfl
  simp (disch := omega) only [yozuvYoz, yozuvMaydonlari, Bytes.store_of_not_mem, Bytes.write_of_not_mem,
    Bytes.fill_of_not_mem]

lemma yozuvlarYoz_of_lt {l : List Xodim} {i : ℕ} (h : i < a) : yozuvlarYoz m a l i = m i := by
  induction l generalizing m a with
  | nil => rfl
  | cons x l ih =>
    rw [yozuvlarYoz, ih (by omega)]
    exact yozuvYoz_of_not_mem (by omega)

lemma bufer_load {n i : ℕ} (h : i < n) : bufer (Bytes.load m a n) i = m (a + i) := by
  have hlen : i < (Bytes.load m a n).length := by rwa [Bytes.length_load]
  rw [bufer, List.getD_eq_getElem?_getD, List.getElem?_eq_getElem hlen, Option.getD_some]
  simp [Bytes.load]

variable {l : List Xodim} {o : Ombor} {h : Yuklash} {i k soni : ℕ}

lemma omborQosh_yangi (hid : ∀ y ∈ o.a, y.id ≠ x.id) :
    (omborQosh true o x).1.a = o.a ++ [x] ∧ (omborQosh true o x).2 = 0 := by
  have hno : ¬ ∃ y ∈ o.a, y.id = x.id := fun ⟨y, hy, h⟩ => hid y hy h
  rw [omborQosh, dif_neg hno]
  split
  · exact ⟨rfl, rfl⟩
  · exact ⟨rfl, rfl⟩

lemma yozuvlarYukla_succ {f : List UInt8} (hf : ikkilikYozuv ≤ f.length)
    (hrec : yozuvOqi (bufer (f.take ikkilikYozuv)) 0 = .ok x) (hid : ∀ y ∈ o.a, y.id ≠ x.id) :
    yozuvlarYukla (fun _ => true) soni (k + 1) i f (o, h) =
      yozuvlarYukla (fun _ => true) soni k (i + 1) (f.drop ikkilikYozuv)
        ((omborQosh true o x).1, { h with qabul := h.qabul + 1 }) := by
  rw [yozuvlarYukla, if_neg (Nat.not_lt.2 hf), hrec]
  dsimp only
  rw [if_neg (not_not.2 (omborQosh_yangi hid).2)]

lemma yozuvOqi_bufer {n : ℕ} (hx : x.Chegarada) (hn : ikkilikYozuv ≤ n) :
    yozuvOqi (bufer ((Bytes.load (yozuvlarYoz m a (x :: l)) a n).take ikkilikYozuv)) 0 = .ok x := by
  rw [Bytes.load_take hn]
  refine (yozuvOqi_congr fun i hi => ?_).trans (yozuvOqi_yozuvYoz (m := m) (a := a) hx)
  have hlt : a + i < a + ikkilikYozuv := Nat.add_lt_add_left hi a
  rw [Nat.zero_add, bufer_load (n := ikkilikYozuv) hi]
  exact yozuvlarYoz_of_lt hlt

lemma yozuvlarYukla_yozuvlarYoz (soni : ℕ) (hl : ∀ x ∈ l, x.Chegarada) (hid : ((o.a ++ l).map Xodim.id).Nodup) :
    ∃ o' h', yozuvlarYukla (fun _ => true) soni l.length i
        (Bytes.load (yozuvlarYoz m a l) a (l.length * ikkilikYozuv)) (o, h) = (o', h') ∧
      o'.a = o.a ++ l ∧ h'.rad = h.rad := by
  induction l generalizing m a o h i with
  | nil => exact ⟨o, h, rfl, (List.append_nil _).symm, rfl⟩
  | cons x l ih =>
    have hsize : (l.length + 1) * ikkilikYozuv = ikkilikYozuv + l.length * ikkilikYozuv := by ring
    have hnew : ∀ y ∈ o.a, y.id ≠ x.id := by
      intro y hy heq
      rw [List.map_append, List.nodup_append] at hid
      exact hid.2.2 _ (List.mem_map_of_mem hy) _ (List.mem_map_of_mem List.mem_cons_self) heq
    have hadd := (omborQosh_yangi hnew).1
    have hsplit : ((o.a ++ [x]) ++ l).map Xodim.id = (o.a ++ x :: l).map Xodim.id := by
      rw [List.append_assoc]
      rfl
    obtain ⟨o', h', hrun, ha, hrad⟩ := ih (m := yozuvYoz m a x) (a := a + ikkilikYozuv) (i := i + 1)
      (o := (omborQosh true o x).1) (h := { h with qabul := h.qabul + 1 })
      (fun y hy => hl y (List.mem_cons_of_mem x hy)) (by rwa [hadd, hsplit])
    refine ⟨o', h', ?_, by rw [ha, hadd, List.append_assoc]; rfl, hrad⟩
    rw [List.length_cons, hsize, yozuvlarYukla_succ (x := x) _ (yozuvOqi_bufer (hl x List.mem_cons_self) _) hnew,
      Bytes.load_drop (Nat.le_add_right _ _), Nat.add_sub_cancel_left]
    · exact hrun
    · rw [Bytes.length_load]
      exact Nat.le_add_right _ _
    · exact Nat.le_add_right _ _

lemma length_le_of_chegarada (hl : ∀ x ∈ o.a, x.Chegarada) : o.a.length ≤ 0xFFFF := by
  have hnodup : (o.a.map fun x => x.id.toInt).Nodup := by
    have hcomp : (o.a.map fun x => x.id.toInt) = (o.a.map Xodim.id).map Int32.toInt := by
      rw [List.map_map]
      rfl
    rw [hcomp]
    exact o.yagona.map fun _ _ h => Int32.toInt_inj.1 h
  have hsub : (o.a.map fun x => x.id.toInt).toFinset ⊆ Finset.Icc 1000 9999 := by
    intro v hv
    obtain ⟨x, hx, rfl⟩ := List.mem_map.1 (List.mem_toFinset.1 hv)
    exact Finset.mem_Icc.2 (hl x hx).id
  have hcard := Finset.card_le_card hsub
  rw [List.toFinset_card_of_nodup hnodup, List.length_map, Int.card_Icc] at hcard
  omega

lemma load_sehr (n : ℕ) : Bytes.load (sarlavha n) 0 4 = ikkilikSehr := by
  refine (Bytes.load_congr fun i _ hi => ?_).trans (Bytes.load_store_self (m := fun _ => 0) rfl)
  rw [sarlavha, Bytes.write_of_not_mem (by omega), Bytes.write_of_not_mem (by omega)]

lemma read_versiya (n : ℕ) : Bytes.read (sarlavha n) 4 2 = 1 := by
  rw [sarlavha, Bytes.read_write_of_disjoint (by omega)]
  exact Bytes.read_write_self (by omega)

lemma read_soni {n : ℕ} (hn : n ≤ 0xFFFF) : Bytes.read (sarlavha n) 6 2 = n := Bytes.read_write_self (by omega)

lemma read_bufer_load {n : ℕ} (hk : k + i ≤ n) : Bytes.read (bufer (Bytes.load m a n)) k i = Bytes.read m (a + k) i := by
  refine Bytes.read_shift fun j hj => ?_
  rw [bufer_load (by omega), Nat.add_assoc]

lemma ikkilikYukla_ikkilikSaqla (hl : ∀ x ∈ o.a, x.Chegarada) :
    ∃ fayl, ikkilikSaqla o = some fayl ∧
      ∃ o' h, ikkilikYukla (fun _ => true) fayl omborYarat {} = .ok (o', h) ∧ o'.a = o.a ∧ h.rad = 0 := by
  have hn := length_le_of_chegarada hl
  have hsaqla : ikkilikSaqla o = some (Bytes.load (yozuvlarYoz (sarlavha o.a.length) ikkilikSarlavha o.a) 0
      (ikkilikSarlavha + o.a.length * ikkilikYozuv)) := if_neg (Nat.not_lt.2 hn)
  refine ⟨_, hsaqla, ?_⟩
  have hsar : ikkilikSarlavha = 8 := rfl
  have hbosh : ∀ i < 8, yozuvlarYoz (sarlavha o.a.length) ikkilikSarlavha o.a i = sarlavha o.a.length i :=
    fun i hi => yozuvlarYoz_of_lt hi
  have hread : ∀ k i, k + i ≤ 8 → Bytes.read (bufer ((Bytes.load (yozuvlarYoz (sarlavha o.a.length)
      ikkilikSarlavha o.a) 0 (ikkilikSarlavha + o.a.length * ikkilikYozuv)).take ikkilikSarlavha)) k i =
      Bytes.read (sarlavha o.a.length) k i := by
    intro k i hk
    rw [Bytes.load_take (Nat.le_add_right _ _), read_bufer_load (n := ikkilikSarlavha) hk, Nat.zero_add]
    exact Bytes.read_congr fun x _ hx => hbosh x (by omega)
  obtain ⟨o', h', hrun, ha, hrad⟩ := yozuvlarYukla_yozuvlarYoz (m := sarlavha o.a.length) (a := ikkilikSarlavha)
    (o := omborYarat) (h := {}) (i := 0) o.a.length hl (by exact o.yagona)
  refine ⟨o', h', ?_, ha, hrad⟩
  rw [ikkilikYukla, if_neg]
  · dsimp only
    rw [hread 4 2 (by omega), read_versiya, hread 6 2 (by omega), read_soni hn, if_neg (not_not.2 rfl),
      Bytes.load_drop (Nat.le_add_right _ _), Nat.zero_add, Nat.add_sub_cancel_left, hrun]
  · rw [not_or, not_not, Bytes.length_load, Bytes.load_take (by omega), ← load_sehr o.a.length]
    exact ⟨by omega, Bytes.load_congr fun i _ hi => hbosh i (by omega)⟩

end RoundTrip

theorem ikkilik_chegarada_iff {o : Ombor} (ho : Yuklangan o) (c : ℕ → UInt8) :
    ((∀ x ∈ o.a, x.Chegarada) ∧
      (∃ fayl, ikkilikSaqla o = some fayl ∧
        ∃ o' h, ikkilikYukla (fun _ => true) fayl omborYarat {} = .ok (o', h) ∧ o'.a = o.a ∧ h.rad = 0) ∧
      ∀ x, yozuvOqi c 0 = .ok x → x.Chegarada ∧
        (xodimHisobla x).Safe fun n => 0 ≤ n.sof.toInt ∧ n.sof.toInt ≤ n.brutto.toInt) ↔ ¬ Toshadi c 0 := by
  have hl := yuklangan_chegarada ho
  rw [← yozuvOqi_chegarada_iff, and_iff_right hl]
  exact and_iff_right (ikkilikYukla_ikkilikSaqla hl)

lemma qatorlar_bitta {σ : Type} {ish : ℕ → Option (List UInt8) → σ → σ} {f : List UInt8} {raqam : ℕ}
    {qator : Option (List UInt8)} {s : σ} (h : qatorOl f = some (qator, [])) : qatorlar ish raqam f s = ish raqam qator s := by
  have hoxir : qatorlar ish (raqam + 1) [] (ish raqam qator s) = ish raqam qator s := by
    rw [qatorlar]
    rfl
  rw [qatorlar]
  split
  · next hq => exact nomatch h.symm.trans hq
  · next q qoldi hq =>
    cases h.symm.trans hq
    exact hoxir

def azizaQatori : List UInt8 := "1042 Aziza 2 2500050 TM\n".toList.map fun c => UInt8.ofNat c.toNat
def davomatQatori : List UInt8 := "1042 2 0830 1900\n".toList.map fun c => UInt8.ofNat c.toNat

def aziza : Xodim where
  id := 1042
  ism := Vector.ofFn fun i => [65, 122, 105, 122, 97].getD i 0
  toifa := 1
  bayroq := 3
  tarif := 2500050
  oddiyDaq := 480
  qoshDaq := 90

def azizaOmbor : Ombor := (davomatYukla davomatQatori (xodimlarYukla (fun _ => true) azizaQatori omborYarat {}).1 {}).1

lemma azizaOmbor_a : azizaOmbor.a = [aziza] := by
  have hbir : xodimlarYukla (fun _ => true) azizaQatori omborYarat {} =
      xodimlarQator (fun _ => true) 1 (some azizaQatori) (omborYarat, {}) := qatorlar_bitta (by decide +kernel)
  have hikki : ∀ o, davomatYukla davomatQatori o {} = davomatQator 1 (some davomatQatori) (o, {}) :=
    fun o => qatorlar_bitta (by decide +kernel)
  rw [azizaOmbor, hbir, hikki]
  decide +kernel

theorem ikkilik_chegarada_iff_aziza : azizaOmbor.a = [aziza] ∧
    (∃ fayl, ikkilikSaqla azizaOmbor = some fayl ∧
      ∃ o' h, ikkilikYukla (fun _ => true) fayl omborYarat {} = .ok (o', h) ∧ o'.a = azizaOmbor.a ∧ h.rad = 0) ∧
    yozuvOqi (yozuvYoz (fun _ => 0) 0 aziza) 0 = .ok aziza ∧ aziza.Chegarada ∧
      (xodimHisobla aziza).Safe fun n => 0 ≤ n.sof.toInt ∧ n.sof.toInt ≤ n.brutto.toInt := by
  have hoqildi : yozuvOqi (yozuvYoz (fun _ => 0) 0 aziza) 0 = .ok aziza := by decide +kernel
  obtain ⟨-, hsaqla, hyozuv⟩ := (ikkilik_chegarada_iff (.davomat davomatQatori {} (.xodimlar _ azizaQatori {} .yarat))
    (yozuvYoz (fun _ => 0) 0 aziza)).2 fun h => absurd h.daq (by decide +kernel)
  exact ⟨azizaOmbor_a, hsaqla, hoqildi, hyozuv aziza hoqildi⟩

def toshganYozuv : List UInt8 :=
  [0xE8, 0x03, 1, 0, 0x00, 0xE8, 0x76, 0x48, 0x17, 0, 0, 0, 0xFF, 0xFF, 0xFF, 0x7F, 0xFF, 0xFF, 0xFF, 0x7F, 65] ++
    List.replicate 23 0 ++ [0xEB, 0x79, 0, 0]

theorem ikkilik_toshgan : ∃ x, yozuvOqi (bufer toshganYozuv) 0 = .ok x ∧ ¬ x.Chegarada ∧
    ∃ v ∈ (xodimHisobla x).2, ¬ Arith.InRange v := by
  have ht : Toshadi (bufer toshganYozuv) 0 :=
    ⟨by decide, by decide, by decide, by decide, by decide, by decide, by decide, by decide⟩
  obtain ⟨hn, hy, hd⟩ := toshadi_iff.1 ht
  refine ⟨_, yozuvOqi_ok.2 ⟨hn, hy, rfl⟩, fun hc => absurd ((chegarada_iff hy).1 hc) (by omega), ?_⟩
  refine ⟨(oqilgan (bufer toshganYozuv) 0).tarif.toInt * (oqilgan (bufer toshganYozuv) 0).oddiyDaq.toInt64.toInt,
    List.mem_cons_self, fun h => absurd h.2 (by decide)⟩

end MyOS.Kadrlar
