import MyOS.Library.System
import MyOS.Mfs.Uzilish

/-! `mkfs`, `fsck` and `cat`: the image they start from, repair and read. -/

namespace MyOS.Mfs

open Library Crashing Function

variable {d : Tasvir} {m : Blok} {b : ℕ → Bool} {x : Inode} {s : Blok × ℕ} {i j a : ℕ} {l : List ℕ}
  {manba : List UInt8} {nom : Nom}

section Used

lemma foldl_belgila : (l.foldl (fun b k => if x.raqam k < dataBosh ∨ 256 ≤ x.raqam k then b
    else update b (x.raqam k) true) b) j = true ↔
      b j = true ∨ ∃ k ∈ l, x.raqam k = j ∧ dataBosh ≤ j ∧ j < 256 := by
  induction l generalizing b with
  | nil => simp
  | cons k l ih =>
    rw [List.foldl_cons, ih, List.exists_mem_cons_iff]
    split_ifs with hbad
    · have hno : ¬ (x.raqam k = j ∧ dataBosh ≤ j ∧ j < 256) := by
        rintro ⟨rfl, h₁, h₂⟩
        omega
      tauto
    · by_cases hj : x.raqam k = j
      · subst hj
        rw [update_self]
        have hgood : dataBosh ≤ x.raqam k ∧ x.raqam k < 256 := by omega
        tauto
      · rw [update_of_ne (Ne.symm hj)]
        tauto

def Sanaladi (x : Inode) (j : ℕ) : Prop :=
  x.tur ≠ 0 ∧ ∃ k < min (blokSoni x) 12, x.raqam k = j ∧ dataBosh ≤ j ∧ j < 256

lemma ishlatiladi_eq (h : ∀ i ∈ l, i < 32) : ∃ b', ishlatiladi l b d = (.ok b', []) ∧
    ∀ j, b' j = true ↔ b j = true ∨ ∃ i ∈ l, Sanaladi (inodeOl d i) j := by
  induction l generalizing b with
  | nil => exact ⟨b, rfl, fun j => by simp⟩
  | cons i l ih =>
    have hl : ∀ i ∈ l, i < 32 := fun j hj => h j (List.mem_cons_of_mem i hj)
    rw [ishlatiladi, bind_of_reads (inodeOqi_eq (h i List.mem_cons_self))]
    split_ifs with htur
    · obtain ⟨b', heq, hb'⟩ := ih (b := b) hl
      refine ⟨b', heq, fun j => (hb' j).trans ?_⟩
      have hno : ¬ Sanaladi (inodeOl d i) j := fun hs => hs.1 htur
      rw [List.exists_mem_cons_iff]
      tauto
    · obtain ⟨b', heq, hb'⟩ := ih (b := belgila (inodeOl d i) b) hl
      refine ⟨b', heq, fun j => (hb' j).trans ?_⟩
      rw [belgila, foldl_belgila, List.exists_mem_cons_iff, or_assoc]
      simp only [Sanaladi, List.mem_range, htur, ne_eq, not_false_eq_true, true_and]

end Used

section Bits

lemma bmBor_tekshir : bmBor (tekshir true b s a).1 j = if j = a then b a else bmBor s.1 j := by
  rw [tekshir]
  by_cases hleak : bmBor s.1 a = true ∧ b a = false
  · rw [if_pos hleak]
    show bmBor (bmOch s.1 a) j = _
    rw [bmBor_bmOch]
    split_ifs with hj
    · rw [decide_eq_true hj, hleak.2]
      rfl
    · rw [decide_eq_false hj]
      rfl
  · rw [if_neg hleak]
    by_cases hlost : bmBor s.1 a = false ∧ b a = true
    · rw [if_pos hlost]
      show bmBor (bmYoq s.1 a) j = _
      rw [bmBor_bmYoq]
      split_ifs with hj
      · rw [decide_eq_true hj, hlost.2]
        rfl
      · rw [decide_eq_false hj]
        rfl
    · rw [if_neg hlost]
      split_ifs with hj
      · rw [hj]
        cases hm : bmBor s.1 a <;> cases hb : b a
        · rfl
        · exact absurd ⟨hm, hb⟩ hlost
        · exact absurd ⟨hm, hb⟩ hleak
        · rfl
      · rfl

lemma bmBor_foldl_tekshir : bmBor (l.foldl (tekshir true b) s).1 j = if j ∈ l then b j else bmBor s.1 j := by
  induction l generalizing s with
  | nil => simp
  | cons a l ih =>
    rw [List.foldl_cons, ih, bmBor_tekshir]
    by_cases hl : j ∈ l
    · rw [if_pos hl, if_pos (List.mem_cons_of_mem a hl)]
    · by_cases ha : j = a
      · rw [if_neg hl, if_pos ha, if_pos (List.mem_cons.2 (.inl ha)), ha]
      · rw [if_neg hl, if_neg ha, if_neg (fun hmem => (List.mem_cons.1 hmem).elim ha hl)]

variable {tuzatish : Bool}

lemma tekshir_cases (tuzatish : Bool) (b : ℕ → Bool) (s : Blok × ℕ) (a : ℕ) :
    tekshir tuzatish b s a = s ∨ (tekshir tuzatish b s a).2 = s.2 + 1 := by
  rw [tekshir]
  split_ifs
  · exact .inr rfl
  · exact .inr rfl
  · exact .inr rfl
  · exact .inr rfl
  · exact .inl rfl

lemma foldl_tekshir_eq : s.2 ≤ (l.foldl (tekshir tuzatish b) s).2 ∧
    ((l.foldl (tekshir tuzatish b) s).2 = s.2 → (l.foldl (tekshir tuzatish b) s).1 = s.1) := by
  induction l generalizing s with
  | nil => exact ⟨le_rfl, fun _ => rfl⟩
  | cons a l ih =>
    rw [List.foldl_cons]
    obtain ⟨hle, heq⟩ := ih (s := tekshir tuzatish b s a)
    rcases tekshir_cases tuzatish b s a with h | h
    · rw [h] at hle heq ⊢
      exact ⟨hle, heq⟩
    · exact ⟨by omega, fun hsame => by omega⟩

end Bits

section Fsck

def Korinish.Ishlatilgan (v : Korinish) (j : ℕ) : Prop :=
  j ≤ dataBosh ∨ ∃ i k, v.Band i ∧ v.Bloki i k j

lemma blokSoni_eq (h : x.hajm.toNat ≤ 12 * 512) : min (blokSoni x) 12 = x.bloklar := by
  rw [blokSoni, Inode.bloklar, Nat.mod_eq_of_lt (by omega)]
  omega
lemma sanaladi_ildiz : Sanaladi ildiz j ↔ j = dataBosh := by
  have hsoni : min (blokSoni ildiz) 12 = 1 := by decide
  have hraqam : ildiz.raqam 0 = dataBosh := by decide
  rw [Sanaladi, hsoni]
  constructor
  · rintro ⟨-, k, hk, rfl, -⟩
    obtain rfl : k = 0 := by omega
    exact hraqam
  · rintro rfl
    exact ⟨by decide, 0, Nat.one_pos, hraqam, le_rfl, by decide⟩

lemma sanaladi_band (h : (korinish d).Butun) (hi : (korinish d).Band i) :
    Sanaladi (inodeOl d i) j ↔ ∃ k, (korinish d).Bloki i k j := by
  have hinode := korinish_inode (d := d) hi.2.1
  have hhajm := h.hajm i hi
  have htur := hi.2.2
  rw [hinode] at hhajm htur
  rw [Sanaladi, blokSoni_eq hhajm]
  constructor
  · rintro ⟨-, k, hk, hj, -⟩
    exact ⟨k, by rw [Korinish.Bloki, hinode]; exact ⟨hk, hj⟩⟩
  · rintro ⟨k, hk⟩
    obtain ⟨h₁, h₂⟩ := h.oraliq i k j hi hk
    rw [Korinish.Bloki, hinode] at hk
    exact ⟨htur, k, hk.1, hk.2, h₁.le, h₂⟩

lemma exists_sanaladi (h : (korinish d).Butun) : (decide (j < dataBosh) = true ∨
    ∃ i ∈ List.range 32, Sanaladi (inodeOl d i) j) ↔ (korinish d).Ishlatilgan j := by
  rw [decide_eq_true_eq, Korinish.Ishlatilgan]
  constructor
  · rintro (hj | ⟨i, hi, hs⟩)
    · exact .inl hj.le
    · rw [List.mem_range] at hi
      rcases Nat.eq_zero_or_pos i with rfl | hpos
      · rw [inodeOl_ildiz h, sanaladi_ildiz] at hs
        exact .inl hs.le
      · have hband : (korinish d).Band i := ⟨hpos, hi, by rw [korinish_inode hi]; exact hs.1⟩
        obtain ⟨k, hk⟩ := (sanaladi_band h hband).1 hs
        exact .inr ⟨i, k, hband, hk⟩
  · rintro (hj | ⟨i, k, hi, hk⟩)
    · rcases hj.lt_or_eq with hlt | rfl
      · exact .inl hlt
      · exact .inr ⟨0, by decide, by rw [inodeOl_ildiz h, sanaladi_ildiz]⟩
    · exact .inr ⟨i, List.mem_range.2 hi.2.1, (sanaladi_band h hi).2 ⟨k, hk⟩⟩

lemma fsck_eq (h : (korinish d).Butun) (tuzatish : Bool) :
    ∃ b, (∀ j, b j = true ↔ (korinish d).Ishlatilgan j) ∧ fsck tuzatish d =
      (if tuzatish ∧ ((List.range' dataBosh 250).foldl (tekshir tuzatish b) (d bitmapBlok, 0)).2 ≠ 0 then
        saqla ((List.range' dataBosh 250).foldl (tekshir tuzatish b) (d bitmapBlok, 0)).1 >>= fun _ =>
          pure (decide (((List.range' dataBosh 250).foldl (tekshir tuzatish b) (d bitmapBlok, 0)).2 ≠ 0 ∧
            tuzatish = false))
      else pure (decide (((List.range' dataBosh 250).foldl (tekshir tuzatish b) (d bitmapBlok, 0)).2 ≠ 0 ∧
        tuzatish = false)) : Buyruq Bool) d := by
  obtain ⟨b, heq, hb⟩ := ishlatiladi_eq (d := d) (b := fun i => decide (i < dataBosh)) (l := List.range 32)
    fun i hi => List.mem_range.1 hi
  refine ⟨b, fun j => (hb j).trans (exists_sanaladi h), ?_⟩
  rw [fsck, bind_of_reads (yukla_eq h), bind_of_reads heq]
  rfl

structure Tuzatildi (d t : Tasvir) (m : Blok) : Prop where
  view : korinish t = { korinish d with bitmap := m }
  belgi : ∀ j < 256, bmBor m j = true ↔ (korinish d).Ishlatilgan j

lemma Tuzatildi.butun {t : Tasvir} (ht : Tuzatildi d t m) (h : (korinish d).Butun) : (korinish t).Butun := by
  rw [ht.view]
  have h6 : dataBosh = 6 := rfl
  refine h.bitmap (fun j hj => (ht.belgi j (by omega)).2 (.inl hj)) fun i k j hi hk => ?_
  exact (ht.belgi j (h.oraliq i k j hi hk).2).2 (.inr ⟨i, k, hi, hk⟩)

lemma fsck_true (h : (korinish d).Butun) : (fsck true).result d = .ok false ∧
    (∃ m, Tuzatildi d ((fsck true).final d) m) ∧
      ∀ K, (fsck true).cut d K = d ∨ (fsck true).cut d K = (fsck true).final d := by
  obtain ⟨b, hb, heq⟩ := fsck_eq h true
  have hbelgi : ∀ j < 256, bmBor ((List.range' dataBosh 250).foldl (tekshir true b) (d bitmapBlok, 0)).1 j = true ↔
      (korinish d).Ishlatilgan j := by
    have h6 : dataBosh = 6 := rfl
    intro j hj
    rw [bmBor_foldl_tekshir]
    split_ifs with hmem
    · exact hb j
    · rw [List.mem_range'_1] at hmem
      have hle : j ≤ dataBosh := by omega
      exact iff_of_true (h.boshi j hle) (.inl hle)
  have hexit : decide (((List.range' dataBosh 250).foldl (tekshir true b) (d bitmapBlok, 0)).2 ≠ 0 ∧
      true = false) = false := by
    rw [decide_eq_false_iff_not]
    exact fun hfalse => Bool.noConfusion hfalse.2
  rw [hexit] at heq
  split_ifs at heq with hsome
  · refine ⟨(result_congr heq).trans rfl, ⟨_, ?_, hbelgi⟩, fun K => ?_⟩
    · rw [final_congr heq]
      exact korinish_bitmap
    · cases K with
      | zero => exact .inl cut_zero
      | succ K =>
        refine .inr ?_
        rw [cut_congr heq, final_congr heq]
        exact cut_write_bind.trans cut_pure
  · have hzero : ((List.range' dataBosh 250).foldl (tekshir true b) (d bitmapBlok, 0)).2 = 0 := by
      by_contra hne
      exact hsome ⟨rfl, hne⟩
    rw [foldl_tekshir_eq.2 hzero] at hbelgi
    refine ⟨(result_congr heq).trans rfl, ⟨_, ?_, hbelgi⟩, fun K => .inl ?_⟩
    · rw [final_congr heq]
      rfl
    · rw [cut_congr heq, cut_pure]

lemma fsck_false (h : (korinish d).Butun) : ∃ c, fsck false d = (.ok c, []) := by
  obtain ⟨b, -, heq⟩ := fsck_eq h false
  exact ⟨_, heq.trans (congrFun (if_neg fun hfalse => Bool.noConfusion hfalse.1) d)⟩

end Fsck

section Cat

variable {r : ℕ}

lemma load_qism {b : Blok} (h : ∀ l < 512, b l = manba.getD (512 * i + l) 0) :
    Bytes.load b 0 (min (manba.length - 512 * i) 512) = (manba.drop (512 * i)).take 512 := by
  apply List.ext_getElem
  · rw [Bytes.length_load, List.length_take, List.length_drop, Nat.min_comm]
  · intro l hl hl'
    rw [Bytes.length_load] at hl
    have hin : 512 * i + l < manba.length := by omega
    have hbyte := h l (by omega)
    rw [List.getD_eq_getElem?_getD, List.getElem?_eq_getElem hin, Option.getD_some] at hbyte
    simp only [Bytes.load, List.getElem_map, List.getElem_range, List.getElem_take, List.getElem_drop, Nat.zero_add]
    exact hbyte

lemma catYoz_eq (hhajm : x.hajm.toNat = manba.length)
    (hdata : ∀ k < x.bloklar, x.raqam k < 256 ∧ ∀ l < 512, d (x.raqam k) l = manba.getD (512 * k + l) 0)
    (hr : i + r = x.bloklar) : catYoz x r i d = (.ok (manba.drop (512 * i)), []) := by
  induction r generalizing i with
  | zero =>
    rw [Inode.bloklar, hhajm] at hr
    rw [List.drop_eq_nil_of_le (by omega)]
    rfl
  | succ r ih =>
    obtain ⟨hlt, hbytes⟩ := hdata i (by omega)
    have hrest : 512 * (i + 1) = 512 * i + 512 := by ring
    rw [catYoz, blokOqi_eq hlt, read_bind, bind_of_reads (ih (by omega)), hhajm, load_qism hbytes, hrest,
      ← List.drop_drop, List.take_append_drop]
    rfl

lemma cat_eq (h : (korinish d).Butun) (hs : (korinish d).Saqlangan nom.1 manba) : cat nom d = (.ok manba, []) := by
  obtain ⟨e, he, hnom, hhajm, hdata⟩ := hs
  have htake : nom.1.take 14 = nom.1 := by
    have hlen := h.nomUzun e he
    rw [hnom] at hlen
    exact List.take_of_length_le hlen.le
  have hfound : topish (d dataBosh) nom = some e := by
    cases hf : topish (d dataBosh) nom with
    | none => exact absurd (hnom.trans htake.symm) (topish_none hf he.1 he.2)
    | some f =>
      obtain ⟨hf, hi, hname⟩ := topish_some hf
      rw [h.nomYagona f e ⟨hf, hi⟩ he (hname.trans (htake.trans hnom.symm))]
  have hband := h.yozuv e he
  have hinode : (korinish d).inode (yozuvInode (d dataBosh) e) = inodeOl d (yozuvInode (d dataBosh) e) :=
    korinish_inode hband.2.1
  rw [cat, bind_of_reads (yukla_eq h), bind_of_reads (katalogYukla_eq h)]
  dsimp only
  rw [hfound]
  dsimp only
  refine (bind_of_reads (inodeOqi_eq hband.2.1)).trans ?_
  refine catYoz_eq (i := 0) (hinode ▸ hhajm) (fun k hk => ?_) (Nat.zero_add _)
  have hbloki : (korinish d).Bloki (yozuvInode (d dataBosh) e) k ((inodeOl d (yozuvInode (d dataBosh) e)).raqam k) := by
    rw [Korinish.Bloki, hinode]
    exact ⟨hk, rfl⟩
  obtain ⟨hgt, hlt⟩ := h.oraliq _ k _ hband hbloki
  refine ⟨hlt, fun l hl => ?_⟩
  exact (congrFun (korinish_data_eq hgt).symm l).trans (hdata k _ hbloki l hl)

end Cat

section Mkfs

variable {n r : ℕ}

lemma nollarYoz_ok : (nollarYoz r i).result d = .ok () ∧
    (nollarYoz r i).final d = fun n => if i ≤ n ∧ n < i + r then fun _ => 0 else d n := by
  induction r generalizing i d with
  | zero =>
    refine ⟨rfl, funext fun n => ?_⟩
    rw [if_neg (by omega)]
    rfl
  | succ r ih =>
    obtain ⟨hok, hfinal⟩ := ih (i := i + 1) (d := update d i fun _ => 0)
    rw [nollarYoz, blokYoz, result_bind rfl, final_bind rfl]
    refine ⟨hok, hfinal.trans (funext fun n => ?_)⟩
    by_cases hn : n = i
    · subst hn
      rw [if_neg (by omega), if_pos (by omega), update_self]
    · rw [update_of_ne hn]
      exact if_congr (by omega) rfl rfl

structure Yangi (v : Korinish) : Prop where
  magik : v.magik = Mfs.magik
  ildiz : v.inode 0 = ildiz
  bosh : ∀ i, i ≠ 0 → v.inode i = {}
  bitmap : v.bitmap = boshBitmap
  katalog : v.katalog = fun _ => 0

lemma read_zero (a n : ℕ) : Bytes.read (fun _ => 0) a n = 0 := by
  induction n with
  | zero => rfl
  | succ n ih => rw [Bytes.read_succ, ih, UInt8.toNat_zero, Nat.mul_zero]

lemma oqi_zero (a : ℕ) : Inode.oqi (fun _ => 0) a = {} := by
  simp only [Inode.oqi, read_zero]
  rfl

lemma bmBor_foldl_bmYoq : bmBor (l.foldl bmYoq m) j = true ↔ j ∈ l ∨ bmBor m j = true := by
  induction l generalizing m with
  | nil => simp
  | cons a l ih =>
    rw [List.foldl_cons, ih, bmBor_bmYoq, Bool.or_eq_true, decide_eq_true_eq, List.mem_cons]
    tauto

lemma bmBor_boshBitmap (hj : j ≤ dataBosh) : bmBor boshBitmap j = true :=
  bmBor_foldl_bmYoq.2 (.inl (List.mem_range.2 (Nat.lt_succ_of_le hj)))

lemma read_super : Bytes.read super 0 4 = magik := by
  simp (disch := omega) only [super, Bytes.read_write_of_disjoint]
  exact Bytes.read_write_self (by decide)

lemma yangi_of (hsuper : Bytes.read (d 0) 0 4 = magik) (hzero : ∀ n, 2 ≤ n → n < 256 → d n = fun _ => 0) :
    Yangi (korinish (update (inodeQoy d 0 ildiz) bitmapBlok boshBitmap)) := by
  have hinode : ∀ i < 32, (korinish (update (inodeQoy d 0 ildiz) bitmapBlok boshBitmap)).inode i =
      if i = 0 then ildiz else inodeOl d i := by
    intro i hi
    rw [korinish_inode hi, inodeOl_update hi (.inl (by decide)), inodeOl_inodeQoy]
  refine ⟨?_, hinode 0 (by decide), fun i hi => ?_, ?_, ?_⟩
  · rw [korinish, update_of_ne (by decide), inodeQoy_of_ne (by decide) (.inl (by decide))]
    exact hsuper
  · by_cases hlt : i < 32
    · rw [hinode i hlt, if_neg hi, inodeOl, inodeBosh, hzero _ (by omega) (by omega)]
      exact oqi_zero _
    · exact if_neg hlt
  · show update (inodeQoy d 0 ildiz) bitmapBlok boshBitmap bitmapBlok = _
    exact update_self _ _ _
  · show update (inodeQoy d 0 ildiz) bitmapBlok boshBitmap dataBosh = _
    rw [update_of_ne (by decide), inodeQoy_of_ne (by decide) (.inr (by decide))]
    exact hzero _ (by decide) (by decide)

lemma mkfs_yangi : mkfs.result d = .ok () ∧ Yangi (korinish (mkfs.final d)) := by
  obtain ⟨hok, hfinal⟩ := nollarYoz_ok (d := d) (r := 256) (i := 0)
  rw [mkfs, inodeYoz_eq (by decide), result_bind hok, final_bind hok]
  refine ⟨rfl, yangi_of ?_ fun n hn hlt => ?_⟩
  · exact read_super
  · show update ((nollarYoz 256 0).final d) 0 super n = _
    rw [update_of_ne (by omega), hfinal]
    exact if_pos ⟨Nat.zero_le n, by omega⟩

lemma Yangi.band {v : Korinish} (h : Yangi v) (i : ℕ) : ¬ v.Band i := by
  intro hi
  exact hi.2.2 (congrArg Inode.tur (h.bosh i (Nat.ne_of_gt hi.1)))

lemma Yangi.nomlangan {v : Korinish} (h : Yangi v) (e : ℕ) : ¬ v.Nomlangan e := by
  intro he
  have hno := he.2
  rw [h.katalog] at hno
  exact hno (read_zero _ _)

lemma Yangi.butun {v : Korinish} (h : Yangi v) : v.Butun where
  magik := h.magik
  ildiz := h.ildiz
  boshi j hj := by
    rw [h.bitmap]
    exact bmBor_boshBitmap hj
  tur i hi := absurd hi (h.band i)
  hajm i hi := absurd hi (h.band i)
  oraliq i _ _ hi := absurd hi (h.band i)
  belgi i _ _ hi := absurd hi (h.band i)
  yagona i _ _ _ _ hi := absurd hi (h.band i)
  yozuv e he := absurd he (h.nomlangan e)
  inodeYagona e _ he := absurd he (h.nomlangan e)
  nomYagona e _ he := absurd he (h.nomlangan e)
  nomUzun e he := absurd he (h.nomlangan e)

lemma Yangi.nomli {v : Korinish} (h : Yangi v) : v.Nomli := fun i hi => absurd hi (h.band i)

end Mkfs

end MyOS.Mfs

/-! Any sequence of commands on a new image, each of them interrupted anywhere or not at all, and the repair that
follows. -/

namespace MyOS.Mfs

open Library Crashing

/-- A command, and the number of its writes that reach the image when it is interrupted. -/
inductive Amal
  | put (manba : List UInt8) (nom : Nom) (uzilish : Option ℕ)
  | rm (nom : Nom) (uzilish : Option ℕ)
  | fsck (tuzatish : Bool) (uzilish : Option ℕ)

/-- The image, and the files that `put` has reported as written and that no `rm` has touched. -/
structure Holat where
  tasvir : Tasvir
  yozilgan : List (Nom × List UInt8)

inductive Qadam (s : Holat) : Amal → Holat → Prop
  | put {manba nom} (h : (put manba nom).result s.tasvir = .ok ()) :
    Qadam s (.put manba nom none) ⟨(put manba nom).final s.tasvir, (nom, manba) :: s.yozilgan⟩
  | putRad {manba nom x} (h : (put manba nom).result s.tasvir = .error x) :
    Qadam s (.put manba nom none) ⟨(put manba nom).final s.tasvir, s.yozilgan⟩
  | putUzildi {manba nom k} (h : k ≤ (put manba nom).writes s.tasvir) :
    Qadam s (.put manba nom (some k)) ⟨(put manba nom).cut s.tasvir k, s.yozilgan⟩
  | rm {nom} : Qadam s (.rm nom none) ⟨(rm nom).final s.tasvir, s.yozilgan.filter fun p => p.1 ≠ nom⟩
  | rmBoshlanmadi {nom} : Qadam s (.rm nom (some 0)) s
  | rmUzildi {nom k} (h : k + 1 ≤ (rm nom).writes s.tasvir) : Qadam s (.rm nom (some (k + 1)))
    ⟨(rm nom).cut s.tasvir (k + 1), s.yozilgan.filter fun p => p.1 ≠ nom⟩
  | fsck {tuzatish} : Qadam s (.fsck tuzatish none) ⟨(fsck tuzatish).final s.tasvir, s.yozilgan⟩
  | fsckUzildi {tuzatish k} (h : k ≤ (fsck tuzatish).writes s.tasvir) :
    Qadam s (.fsck tuzatish (some k)) ⟨(fsck tuzatish).cut s.tasvir k, s.yozilgan⟩

def tizim : System Holat Amal where
  init s := (∃ d, mkfs.final d = s.tasvir) ∧ s.yozilgan = []
  step := Qadam

/-- No command is interrupted between its write of an inode and its write of the directory. -/
def Ehtiyot (_ : Holat) : Amal → Prop
  | .put manba _ uzilish => uzilish ≠ some (bloklari manba + 2)
  | .rm _ uzilish => uzilish ≠ some 1
  | .fsck _ _ => True

namespace Korinish

variable (v : Korinish)

def InodeBand (i : ℕ) : Prop := i < 32 ∧ (v.inode i).tur ≠ 0

structure Izchil : Prop where
  yagona : ∀ i j k l b, v.InodeBand i → v.InodeBand j → v.Bloki i k b → v.Bloki j l b → i = j
  yozuv : ∀ e, v.Nomlangan e → v.InodeBand (yozuvInode v.katalog e)
  belgi : ∀ e k b, v.Nomlangan e → v.Bloki (yozuvInode v.katalog e) k b → bmBor v.bitmap b = true

/-- A block that holds no data, or that the directory or a file of the directory has. -/
def Yetiladi (b : ℕ) : Prop :=
  b < dataBosh ∨ (∃ k, v.Bloki 0 k b) ∨ ∃ e k, v.Nomlangan e ∧ v.Bloki (yozuvInode v.katalog e) k b

structure Aniq : Prop where
  bitmap : ∀ b < 256, bmBor v.bitmap b = true ↔ v.Yetiladi b
  nomli : ∀ i, i ≠ 0 → v.InodeBand i → ∃ e, v.Nomlangan e ∧ yozuvInode v.katalog e = i

def Yetim (i : ℕ) : Prop := v.Band i ∧ ∀ e, v.Nomlangan e → yozuvInode v.katalog e ≠ i

variable {v} {i j k l b e : ℕ}

lemma inodeBand_iff (hi : i ≠ 0) : v.InodeBand i ↔ v.Band i :=
  ⟨fun h => ⟨Nat.pos_of_ne_zero hi, h.1, h.2⟩, fun h => ⟨h.2.1, h.2.2⟩⟩

lemma nomli_iff : v.Nomli ↔ ∀ i, ¬ v.Yetim i := by
  constructor
  · intro h i ⟨hi, hno⟩
    obtain ⟨e, he, hei⟩ := h i hi
    exact hno e he hei
  · intro h i hi
    by_contra hno
    push Not at hno
    exact h i ⟨hi, hno⟩

lemma Butun.bloki_ildiz (h : v.Butun) : v.Bloki 0 k b ↔ k = 0 ∧ b = dataBosh := by
  have hbloklar : Mfs.ildiz.bloklar = 1 := by decide
  have hraqam : Mfs.ildiz.raqam 0 = dataBosh := by decide
  rw [Bloki, h.ildiz, hbloklar]
  constructor
  · rintro ⟨hk, rfl⟩
    obtain rfl : k = 0 := by omega
    exact ⟨rfl, hraqam⟩
  · rintro ⟨rfl, rfl⟩
    exact ⟨Nat.one_pos, hraqam⟩

lemma Butun.izchil (h : v.Butun) : v.Izchil where
  yagona i j k l b hi hj hk hl := by
    by_cases hi0 : i = 0 <;> by_cases hj0 : j = 0
    · rw [hi0, hj0]
    · subst hi0
      have hgt := (h.oraliq j l b ((inodeBand_iff hj0).1 hj) hl).1
      exact absurd (h.bloki_ildiz.1 hk).2 (Nat.ne_of_gt hgt)
    · subst hj0
      have hgt := (h.oraliq i k b ((inodeBand_iff hi0).1 hi) hk).1
      exact absurd (h.bloki_ildiz.1 hl).2 (Nat.ne_of_gt hgt)
    · exact (h.yagona i j k l b ((inodeBand_iff hi0).1 hi) ((inodeBand_iff hj0).1 hj) hk hl).1
  yozuv e he := ⟨(h.yozuv e he).2.1, (h.yozuv e he).2.2⟩
  belgi e k b he hk := h.belgi _ k b (h.yozuv e he) hk

lemma Butun.ishlatilgan_iff (h : v.Butun) (hn : v.Nomli) : v.Ishlatilgan b ↔ v.Yetiladi b := by
  constructor
  · rintro (hb | ⟨i, k, hi, hk⟩)
    · rcases hb.lt_or_eq with hlt | rfl
      · exact .inl hlt
      · exact .inr (.inl ⟨0, h.bloki_ildiz.2 ⟨rfl, rfl⟩⟩)
    · obtain ⟨e, he, rfl⟩ := hn i hi
      exact .inr (.inr ⟨e, k, he, hk⟩)
  · rintro (hb | ⟨k, hk⟩ | ⟨e, k, he, hk⟩)
    · exact .inl hb.le
    · exact .inl (h.bloki_ildiz.1 hk).2.le
    · exact .inr ⟨_, k, h.yozuv e he, hk⟩

end Korinish

section Yetim

variable {d t : Tasvir} {m m' : Blok} {i e k K : ℕ} {x' : Inode} {manba : List UInt8} {nom : Nom}

lemma Ustki.yetim (hu : Ustki m d t) (hy : (korinish d).Yetim i) : (korinish t).Yetim i := by
  obtain ⟨f, hf, -⟩ := hu
  rw [hf]
  exact hy

lemma yetim_put (h : (korinish d).Butun) (hy : (korinish d).Yetim i) :
    (korinish ((put manba nom).cut d K)).Yetim i := by
  refine put_cut (P := fun v => v.Yetim i) h (fun _ ht => ht.yetim hy) fun i' e t m' x' hj ha => ?_
  have hne : i ≠ i' := by
    rintro rfl
    exact hy.1.2.2 hj.inode.2.2
  have hbitmap : (bitmapli t m').Yetim i := ha.ustki.yetim hy
  have hinode : ((bitmapli t m').inodeli i' x').Yetim i := ⟨(Korinish.band_inodeli hne).2 hbitmap.1, hbitmap.2⟩
  refine ⟨hbitmap, fun _ => hinode, hinode.1, fun g hg => ?_⟩
  rw [Korinish.yozuvInode_yozuvli hj.inode.2.1]
  split_ifs with hge
  · exact hne.symm
  · exact hinode.2 g (Korinish.nomlangan_yozuvli hj.inode.2.1 hg hge)

lemma yetim_rm (h : (korinish d).Butun) (hy : (korinish d).Yetim i) : (korinish ((rm nom).cut d K)).Yetim i := by
  refine rm_cut (P := fun v => v.Yetim i) h hy fun e m' he _ _ => ?_
  have hne : i ≠ yozuvInode (korinish d).katalog e := fun heq => hy.2 e he heq.symm
  have hentry : ((korinish d).yozuvsiz e).Yetim i := by
    refine ⟨hy.1, fun g hg => ?_⟩
    obtain ⟨hg, hge⟩ := Korinish.nomlangan_yozuvsiz.1 hg
    rw [Korinish.yozuvInode_yozuvsiz, if_neg hge]
    exact hy.2 g hg
  have hinode : (((korinish d).yozuvsiz e).inodeli (yozuvInode (korinish d).katalog e) {}).Yetim i :=
    ⟨(Korinish.band_inodeli hne).2 hentry.1, hentry.2⟩
  exact ⟨fun _ => hentry, hinode, hinode⟩

lemma Tuzatildi.yetim_iff (ht : Tuzatildi d t m) : (korinish t).Yetim i ↔ (korinish d).Yetim i := by
  rw [ht.view]
  rfl

lemma yetim_put_uzildi (h : (korinish d).Butun) (hK : bloklari manba + 2 ≤ (put manba nom).writes d) :
    ∃ i, (korinish ((put manba nom).cut d (bloklari manba + 2))).Yetim i := by
  rcases put_cases manba nom h with ⟨⟨s, hs⟩, -⟩ | ⟨i, e, hj, heq⟩
  · rw [writes_congr (y := fail s) hs] at hK
    exact absurd hK (Nat.not_succ_le_zero _)
  · rw [writes_congr heq] at hK
    rcases putYoz_cases h hj with ⟨s, -, hle, -⟩ | ⟨t, m', x', hp⟩
    · omega
    · have ha := hp.ajratilgan
      rw [cut_congr heq, hp.inode]
      refine ⟨i, ⟨hj.inode.1, hj.inode.2.1, ?_⟩, fun g hg => nomsiz h hj ha hg⟩
      rw [Korinish.inode_inodeli_self, ha.tur]
      exact (by decide : (1 : UInt16) ≠ 0)

lemma yetim_rm_uzildi (h : (korinish d).Butun) (hK : 1 ≤ (rm nom).writes d) :
    ∃ i, (korinish ((rm nom).cut d 1)).Yetim i := by
  rcases rm_cases nom h with ⟨s, hs⟩ | ⟨e, he, -, heq⟩
  · rw [writes_congr (y := fail s) hs] at hK
    exact absurd hK (Nat.not_succ_le_zero 0)
  · obtain ⟨m', hp⟩ := rmYoz_yozdi h he
    rw [cut_congr heq, hp.katalog]
    exact ⟨_, h.yozuv e he, fun g hg => h.yozuvsiz_ne he hg⟩

end Yetim

section Runs

variable {s t : Holat} {a : Amal}

structure Holat.Barqaror (s : Holat) : Prop where
  butun : (korinish s.tasvir).Butun
  saqlangan : ∀ p ∈ s.yozilgan, (korinish s.tasvir).Saqlangan p.1.1 p.2

lemma fsck_cut {d : Tasvir} {P : Korinish → Prop} {tuzatish : Bool} {K : ℕ} (h : (korinish d).Butun)
    (hsame : P (korinish d)) (hfix : ∀ t m, Tuzatildi d t m → P (korinish t)) :
    P (korinish ((fsck tuzatish).cut d K)) := by
  cases tuzatish with
  | false =>
    obtain ⟨c, hc⟩ := fsck_false h
    rw [cut_congr (y := pure c) hc, cut_pure]
    exact hsame
  | true =>
    obtain ⟨-, ⟨m, ht⟩, hcut⟩ := fsck_true h
    rcases hcut K with hK | hK
    · rw [hK]
      exact hsame
    · rw [hK]
      exact hfix _ m ht

lemma Tuzatildi.saqlangan {d t : Tasvir} {m : Blok} {l l' : List UInt8} (ht : Tuzatildi d t m)
    (hs : (korinish d).Saqlangan l l') : (korinish t).Saqlangan l l' := by
  rw [ht.view]
  exact hs

lemma barqaror_fsck {tuzatish : Bool} {K : ℕ} (h : s.Barqaror) :
    (⟨(fsck tuzatish).cut s.tasvir K, s.yozilgan⟩ : Holat).Barqaror :=
  ⟨fsck_cut h.butun h.butun fun _ _ ht => ht.butun h.butun, fun p hp =>
    fsck_cut (P := fun v => v.Saqlangan p.1.1 p.2) h.butun (h.saqlangan p hp) fun _ _ ht =>
      ht.saqlangan (h.saqlangan p hp)⟩

lemma barqaror_rm {nom : Nom} {K : ℕ} (h : s.Barqaror) :
    (⟨(rm nom).cut s.tasvir K, s.yozilgan.filter fun p => p.1 ≠ nom⟩ : Holat).Barqaror := by
  refine ⟨butun_rm h.butun, fun p hp => ?_⟩
  obtain ⟨hmem, hne⟩ := List.mem_filter.1 hp
  rw [decide_eq_true_eq] at hne
  exact saqlangan_rm_cut h.butun (h.saqlangan p hmem) fun heq => hne (Subtype.ext heq)

lemma barqaror_put {manba : List UInt8} {nom : Nom} {K : ℕ} (h : s.Barqaror) :
    (⟨(put manba nom).cut s.tasvir K, s.yozilgan⟩ : Holat).Barqaror :=
  ⟨butun_put h.butun, fun p hp => saqlangan_put_cut h.butun (h.saqlangan p hp)⟩

lemma Qadam.barqaror (hst : Qadam s a t) (h : s.Barqaror) : t.Barqaror := by
  cases hst with
  | put hok =>
    rw [← cut_writes]
    refine ⟨butun_put h.butun, fun p hp => ?_⟩
    rcases List.mem_cons.1 hp with rfl | hp
    · rw [cut_writes]
      exact saqlangan_put_ok h.butun hok
    · exact saqlangan_put_cut h.butun (h.saqlangan p hp)
  | putRad =>
    rw [← cut_writes]
    exact barqaror_put h
  | putUzildi => exact barqaror_put h
  | rm =>
    rw [← cut_writes]
    exact barqaror_rm h
  | rmBoshlanmadi => exact h
  | rmUzildi => exact barqaror_rm h
  | fsck =>
    rw [← cut_writes]
    exact barqaror_fsck h
  | fsckUzildi => exact barqaror_fsck h

lemma barqaror_init (h : tizim.init s) : s.Barqaror := by
  obtain ⟨⟨d, hd⟩, hnone⟩ := h
  refine ⟨hd ▸ mkfs_yangi.2.butun, fun p hp => ?_⟩
  rw [hnone] at hp
  exact absurd hp List.not_mem_nil

lemma reachable_barqaror (h : tizim.Reachable s) : s.Barqaror :=
  h.invariant (I := Holat.Barqaror) (fun _ => barqaror_init) fun _ _ _ hs hst => Qadam.barqaror hst hs

lemma Qadam.nomli (hst : Qadam s a t) (h : s.Barqaror) (ha : Ehtiyot s a) (hn : (korinish s.tasvir).Nomli) :
    (korinish t.tasvir).Nomli := by
  have hfix : ∀ t m, Tuzatildi s.tasvir t m → (korinish t).Nomli := by
    intro t m ht
    rw [ht.view]
    exact hn
  cases hst with
  | put | putRad => exact nomli_put_final h.butun hn
  | putUzildi => exact nomli_put_cut h.butun hn fun hk => ha (congrArg some hk)
  | rm => exact nomli_rm_final h.butun hn
  | rmBoshlanmadi => exact hn
  | rmUzildi => exact nomli_rm_cut h.butun hn fun hk => ha (congrArg some hk)
  | fsck =>
    rw [← cut_writes]
    exact fsck_cut h.butun hn hfix
  | fsckUzildi => exact fsck_cut h.butun hn hfix

lemma Qadam.yetim {i : ℕ} (hst : Qadam s a t) (h : s.Barqaror) (hy : (korinish s.tasvir).Yetim i) :
    (korinish t.tasvir).Yetim i := by
  have hfix : ∀ t m, Tuzatildi s.tasvir t m → (korinish t).Yetim i := fun _ _ ht => ht.yetim_iff.2 hy
  cases hst with
  | put | putRad =>
    rw [← cut_writes]
    exact yetim_put h.butun hy
  | putUzildi => exact yetim_put h.butun hy
  | rm =>
    rw [← cut_writes]
    exact yetim_rm h.butun hy
  | rmBoshlanmadi => exact hy
  | rmUzildi => exact yetim_rm h.butun hy
  | fsck =>
    rw [← cut_writes]
    exact fsck_cut (P := fun v => v.Yetim i) h.butun hy hfix
  | fsckUzildi => exact fsck_cut (P := fun v => v.Yetim i) h.butun hy hfix

lemma Qadam.yetim_of_not (hst : Qadam s a t) (h : s.Barqaror) (ha : ¬ Ehtiyot s a) :
    ∃ i, (korinish t.tasvir).Yetim i := by
  cases hst with
  | put | putRad | rm => exact (ha fun hnone => nomatch hnone).elim
  | putUzildi hle =>
    cases not_not.1 ha
    exact yetim_put_uzildi h.butun hle
  | rmBoshlanmadi => exact absurd (by decide : some 0 ≠ some 1) ha
  | rmUzildi hle =>
    have hk := Option.some.inj (not_not.1 ha)
    rw [hk] at hle ⊢
    exact yetim_rm_uzildi h.butun hle
  | fsck | fsckUzildi => exact absurd trivial ha

lemma reachable_nomli (h : (tizim.guarded Ehtiyot).Reachable s) : (korinish s.tasvir).Nomli := by
  have hboth := h.invariant (I := fun s => s.Barqaror ∧ (korinish s.tasvir).Nomli) ?_
    fun _ _ _ ⟨hs, hn⟩ ⟨ha, hst⟩ => ⟨Qadam.barqaror hst hs, Qadam.nomli hst hs ha hn⟩
  · exact hboth.2
  · intro s hs
    refine ⟨barqaror_init hs, ?_⟩
    obtain ⟨⟨d, hd⟩, -⟩ := hs
    exact hd ▸ mkfs_yangi.2.nomli

lemma guarded_of_nomli (h : tizim.Reachable s) (hn : (korinish s.tasvir).Nomli) :
    (tizim.guarded Ehtiyot).Reachable s := by
  induction h with
  | init h => exact .init h
  | step a hs hst ih =>
    have hbarqaror := reachable_barqaror hs
    rw [Korinish.nomli_iff] at hn
    refine .step a (ih (Korinish.nomli_iff.2 fun i hy => hn i (Qadam.yetim hst hbarqaror hy))) ⟨?_, hst⟩
    by_contra ha
    obtain ⟨i, hy⟩ := Qadam.yetim_of_not hst hbarqaror ha
    exact hn i hy

lemma Tuzatildi.aniq_iff {d t : Tasvir} {m : Blok} (ht : Tuzatildi d t m) (h : (korinish d).Butun) :
    (korinish t).Aniq ↔ (korinish d).Nomli := by
  have hnomli : (korinish t).Nomli ↔ (korinish d).Nomli := by
    rw [ht.view]
    rfl
  have hused : ∀ b, (korinish t).Ishlatilgan b ↔ (korinish d).Ishlatilgan b := by
    intro b
    rw [ht.view]
    rfl
  have hbitmap : (korinish t).bitmap = m := congrArg Korinish.bitmap ht.view
  constructor
  · intro ha
    refine hnomli.1 fun i hi => ha.nomli i (Nat.ne_of_gt hi.1) ⟨hi.2.1, hi.2.2⟩
  · intro hn
    refine ⟨fun b hb => ?_, fun i hi hband => hnomli.2 hn i ((Korinish.inodeBand_iff hi).1 hband)⟩
    rw [hbitmap, ht.belgi b hb, ← hused]
    exact (ht.butun h).ishlatilgan_iff (hnomli.2 hn)

theorem fsck_tiklaydi_iff (h : tizim.Reachable s) :
    (korinish s.tasvir).Izchil ∧ (fsck true).result s.tasvir = .ok false ∧
      (∀ p ∈ s.yozilgan, (cat p.1).result ((fsck true).final s.tasvir) = .ok p.2) ∧
      ((korinish ((fsck true).final s.tasvir)).Aniq ↔ (tizim.guarded Ehtiyot).Reachable s) := by
  have hs := reachable_barqaror h
  obtain ⟨hresult, ⟨m, ht⟩, -⟩ := fsck_true hs.butun
  refine ⟨hs.butun.izchil, hresult, fun p hp => ?_, ?_⟩
  · have hcat := cat_eq (ht.butun hs.butun) (ht.saqlangan (hs.saqlangan p hp))
    exact congrArg Prod.fst hcat
  · rw [ht.aniq_iff hs.butun]
    exact ⟨guarded_of_nomli h, reachable_nomli⟩

end Runs

section Example

def nomA : Nom := ⟨[97], by decide⟩

variable {d : Tasvir}

lemma joy_yangi (h : Yangi (korinish d)) : Joy d [65] nomA 1 0 where
  hajm := by decide
  uzun := by decide
  yangi g hg := absurd hg (h.nomlangan g)
  inode := ⟨by decide, by decide, congrArg Inode.tur (h.bosh 1 (by decide))⟩
  yozuv := by
    refine ⟨by decide, ?_⟩
    rw [h.katalog]
    exact read_zero _ _

lemma put_yangi (h : Yangi (korinish d)) : (put [65] nomA).result d = .ok () ∧ (put [65] nomA).writes d = 4 := by
  rcases put_cases [65] nomA h.butun with ⟨-, hno⟩ | ⟨i, e, hj, heq⟩
  · exact absurd (joy_yangi h) (hno 1 0)
  · rw [result_congr heq, writes_congr heq]
    rcases putYoz_cases h.butun hj with ⟨s, herror, -, -⟩ | ⟨t, m', x', hp⟩
    · have hbitmap : d bitmapBlok = boshBitmap := h.bitmap
      have hfree : blokAjrat boshBitmap = some 7 := by decide
      rw [hbitmap, putYoz_eq hj.inode.2.1] at herror
      have hblocks : (malumotYoz [65] (bloklari [65]) 0 boshBitmap (yangiInode [65])).result d =
          .ok (bmYoq boshBitmap 7, { yangiInode [65] with blok := (yangiInode [65]).blok.setIfInBounds 0 7 }) := by
        rw [show bloklari [65] = 0 + 1 from rfl, malumotYoz_succ hfree]
        rfl
      rw [result_bind hblocks] at herror
      cases herror
    · exact ⟨hp.result, hp.writes⟩

lemma yetim_put_yangi (h : Yangi (korinish d)) : ∃ i, (korinish ((put [65] nomA).cut d 3)).Yetim i := by
  have hblocks : bloklari [65] + 2 = 3 := rfl
  rw [← hblocks]
  refine yetim_put_uzildi h.butun ?_
  rw [(put_yangi h).2]
  decide

lemma reachable_mkfs (h : mkfs.final (fun _ _ => 0) = d) : (tizim.guarded Ehtiyot).Reachable ⟨d, []⟩ :=
  .init ⟨⟨_, h⟩, rfl⟩

def uzilganHolat : Holat := ⟨(put [65] nomA).cut (mkfs.final fun _ _ => 0) 3, []⟩

theorem uzilgan_put_tiklanmaydi : tizim.Reachable uzilganHolat ∧
    ¬ (korinish ((fsck true).final uzilganHolat.tasvir)).Aniq := by
  have hmkfs := (reachable_mkfs rfl).of_guarded
  have hy := (mkfs_yangi (d := fun _ _ => 0)).2
  rw [uzilganHolat]
  generalize mkfs.final (fun _ _ => 0) = d at hmkfs hy
  have hreach : tizim.Reachable ⟨(put [65] nomA).cut d 3, []⟩ := by
    refine .step (.put [65] nomA (some 3)) hmkfs (.putUzildi ?_)
    rw [(put_yangi hy).2]
    decide
  refine ⟨hreach, fun ha => ?_⟩
  have hbutun := (reachable_barqaror hreach).butun
  obtain ⟨-, ⟨m, ht⟩, -⟩ := fsck_true hbutun
  obtain ⟨i, hi⟩ := yetim_put_yangi hy
  exact Korinish.nomli_iff.1 ((ht.aniq_iff hbutun).1 ha) i hi

def putHolat : Holat := ⟨(put [65] nomA).final (mkfs.final fun _ _ => 0), [(nomA, [65])]⟩

lemma reachable_putHolat : (tizim.guarded Ehtiyot).Reachable putHolat := by
  have hmkfs := reachable_mkfs rfl
  have hy := (mkfs_yangi (d := fun _ _ => 0)).2
  rw [putHolat]
  generalize mkfs.final (fun _ _ => 0) = d at hmkfs hy
  exact .step (.put [65] nomA none) hmkfs ⟨nofun, .put (put_yangi hy).1⟩

theorem fsck_tiklaydi_iff_put : (cat nomA).result ((fsck true).final putHolat.tasvir) = .ok [65] ∧
    (korinish ((fsck true).final putHolat.tasvir)).Aniq := by
  obtain ⟨-, -, hcat, haniq⟩ := fsck_tiklaydi_iff reachable_putHolat.of_guarded
  refine ⟨hcat (nomA, [65]) ?_, haniq.2 reachable_putHolat⟩
  rw [putHolat]
  exact List.mem_singleton_self _

end Example

end MyOS.Mfs
