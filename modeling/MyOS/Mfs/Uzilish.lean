import MyOS.Mfs.Izchil

/-! What each command leaves on the image, when it ends and when it is interrupted after some writes. -/

namespace MyOS.Mfs

open Library Crashing Function

variable {d t : Tasvir} {m m' : Blok} {i j k e n r K : ℕ} {x x' : Inode} {manba : List UInt8} {nom : Nom}

section Reads

lemma blokOqi_eq (h : n < 256) : (blokOqi n : Buyruq Blok) = Crashing.read fun d => d n := if_pos h

lemma inodeOqi_eq (h : i < 32) : inodeOqi i d = (.ok (inodeOl d i), []) := by
  have hn : inodeBosh + i / 8 < 256 := by
    rw [inodeBosh]
    omega
  rw [inodeOqi, blokOqi_eq hn]
  rfl

lemma inodeYoz_eq (h : i < 32) : inodeYoz i x = Crashing.write fun d => inodeQoy d i x := by
  have hn : inodeBosh + i / 8 < 256 := by
    rw [inodeBosh]
    omega
  rw [inodeYoz, blokOqi_eq hn]
  rfl

lemma yukla_eq (h : (korinish d).Butun) : yukla d = (.ok (d bitmapBlok), []) := by
  have hm : Bytes.read (d 0) 0 4 = magik := h.magik
  rw [yukla, blokOqi_eq (by decide), read_bind, if_neg (not_not.2 hm), blokOqi_eq (by decide)]
  rfl

lemma inodeOl_ildiz (h : (korinish d).Butun) : inodeOl d 0 = ildiz := h.ildiz

lemma katalogYukla_eq (h : (korinish d).Butun) : katalogYukla d = (.ok (dataBosh, d dataBosh), []) := by
  have hraqam : ildiz.raqam 0 = dataBosh := by decide
  rw [katalogYukla, bind_of_reads (inodeOqi_eq (by decide)), inodeOl_ildiz h, hraqam, blokOqi_eq (by decide)]
  rfl

lemma boshInode_eq {l : List ℕ} (h : ∀ i ∈ l, i < 32) :
    boshInode l d = (.ok (l.find? fun i => (inodeOl d i).tur = 0), []) := by
  induction l with
  | nil => rfl
  | cons i l ih =>
    rw [boshInode, bind_of_reads (inodeOqi_eq (h i List.mem_cons_self)), List.find?_cons]
    split_ifs with hi
    · rw [decide_eq_true hi]
      rfl
    · rw [decide_eq_false hi]
      exact ih fun j hj => h j (List.mem_cons_of_mem i hj)

lemma korinish_inode (h : i < 32) : (korinish d).inode i = inodeOl d i := if_pos h

end Reads

section Data

def Ustki (m : Blok) (d t : Tasvir) : Prop :=
  ∃ f, korinish t = { korinish d with data := f } ∧ ∀ j, bmBor m j = true → f j = (korinish d).data j

lemma Ustki.refl (m : Blok) (d : Tasvir) : Ustki m d d := ⟨_, rfl, fun _ _ => rfl⟩

lemma Ustki.yoz {b : Blok} (hj : dataBosh < j) (hfree : bmBor m j = false)
    (h : Ustki (bmYoq m j) (update d j b) t) : Ustki m d t := by
  obtain ⟨f, hf, hsame⟩ := h
  rw [korinish_data hj] at hf hsame
  refine ⟨f, hf, fun l hl => ?_⟩
  have hlj : l ≠ j := by
    rintro rfl
    exact Bool.false_ne_true (hfree.symm.trans hl)
  have hlm : bmBor (bmYoq m j) l = true := by
    rw [bmBor_bmYoq, hl, Bool.or_true]
  exact (hsame l hlm).trans (update_of_ne hlj _ _)

lemma korinish_data_eq (hj : dataBosh < j) : (korinish d).data j = d j := if_pos hj

lemma Ustki.eq (h : Ustki m d t) (hj : dataBosh < j) (hm : bmBor m j = true) : t j = d j := by
  obtain ⟨f, hf, hsame⟩ := h
  have hdata := congrArg Korinish.data hf
  rw [← korinish_data_eq (d := t) hj, hdata]
  exact (hsame j hm).trans (korinish_data_eq hj)

end Data

section Allocation

structure Ajratilgan (manba : List UInt8) (m : Blok) (k r : ℕ) (x : Inode) (d t : Tasvir) (m' : Blok) (x' : Inode) :
    Prop where
  ustki : Ustki m d t
  oraliq : ∀ l, k ≤ l → l < k + r → dataBosh < x'.raqam l ∧ x'.raqam l < 256 ∧ bmBor m (x'.raqam l) = false ∧
    bmBor m' (x'.raqam l) = true
  yagona : ∀ l l', k ≤ l → l < k + r → k ≤ l' → l' < k + r → x'.raqam l = x'.raqam l' → l = l'
  belgi : ∀ j, bmBor m j = true → bmBor m' j = true
  oldingi : ∀ l < k, x'.raqam l = x.raqam l
  tur : x'.tur = x.tur
  hajm : x'.hajm = x.hajm
  malumot : ∀ l, k ≤ l → l < k + r → t (x'.raqam l) = qism manba l

lemma raqam_setIfInBounds (hk : k < 12) (hj : j < 2 ^ 32) (l : ℕ) :
    Inode.raqam { x with blok := x.blok.setIfInBounds k (UInt32.ofNat j) } l = if l = k then j else x.raqam l := by
  have hlen : x.blok.toList.length = 12 := Vector.length_toList
  simp only [Inode.raqam, Vector.toList_setIfInBounds, List.getD_eq_getElem?_getD]
  by_cases hl : l = k
  · subst hl
    rw [List.getElem?_set_self (by omega), if_pos rfl, Option.getD_some, UInt32.toNat_ofNat']
    omega
  · rw [List.getElem?_set_ne (Ne.symm hl), if_neg hl]

lemma Ajratilgan.cons (hj : dataBosh < j) (hj' : j < 256) (hfree : bmBor m j = false) (hk : k < 12)
    (h : Ajratilgan manba (bmYoq m j) (k + 1) r { x with blok := x.blok.setIfInBounds k (UInt32.ofNat j) }
      (update d j (qism manba k)) t m' x') : Ajratilgan manba m k (r + 1) x d t m' x' := by
  have hset := raqam_setIfInBounds (x := x) hk (show j < 2 ^ 32 by omega)
  have hmark : ∀ l, bmBor m l = true → bmBor (bmYoq m j) l = true := by
    intro l hl
    rw [bmBor_bmYoq, hl, Bool.or_true]
  have hself : bmBor (bmYoq m j) j = true := by
    rw [bmBor_bmYoq, decide_eq_true rfl, Bool.true_or]
  have hraqam : x'.raqam k = j := by
    rw [h.oldingi k (Nat.lt_succ_self k), hset, if_pos rfl]
  have hfree' : ∀ l, bmBor (bmYoq m j) l = false → bmBor m l = false ∧ l ≠ j := by
    intro l hl
    rw [bmBor_bmYoq, Bool.or_eq_false_iff, decide_eq_false_iff_not] at hl
    exact ⟨hl.2, hl.1⟩
  refine ⟨h.ustki.yoz hj hfree, ?_, ?_, fun l hl => h.belgi l (hmark l hl), ?_, h.tur, h.hajm, ?_⟩
  · intro l hkl hlr
    by_cases hl : l = k
    · rw [hl, hraqam]
      exact ⟨hj, hj', hfree, h.belgi j hself⟩
    · obtain ⟨h₁, h₂, h₃, h₄⟩ := h.oraliq l (by omega) (by omega)
      exact ⟨h₁, h₂, (hfree' _ h₃).1, h₄⟩
  · intro l l' hkl hlr hkl' hlr' heq
    by_cases hl : l = k <;> by_cases hl' : l' = k
    · rw [hl, hl']
    · rw [hl, hraqam] at heq
      exact ((hfree' _ (h.oraliq l' (by omega) (by omega)).2.2.1).2 heq.symm).elim
    · rw [hl', hraqam] at heq
      exact ((hfree' _ (h.oraliq l (by omega) (by omega)).2.2.1).2 heq).elim
    · exact h.yagona l l' (by omega) (by omega) (by omega) (by omega) heq
  · intro l hl
    rw [h.oldingi l (by omega), hset, if_neg (by omega)]
  · intro l hkl hlr
    by_cases hl : l = k
    · rw [hl, hraqam, h.ustki.eq hj hself, update_self]
    · exact h.malumot l (by omega) (by omega)

lemma malumotYoz_succ (h : blokAjrat m = some j) : malumotYoz manba (r + 1) k m x =
    Crashing.write (fun d => update d j (qism manba k)) >>= fun _ =>
      malumotYoz manba r (k + 1) (bmYoq m j) { x with blok := x.blok.setIfInBounds k (UInt32.ofNat j) } := by
  rw [malumotYoz, h]
  rfl

lemma malumotYoz_full (h : blokAjrat m = none) : malumotYoz manba (r + 1) k m x = fail "disk to'lgan" := by
  rw [malumotYoz, h]

lemma blokAjrat_gt (hm : ∀ j ≤ dataBosh, bmBor m j = true) (h : blokAjrat m = some j) :
    dataBosh < j ∧ j < 256 ∧ bmBor m j = false := by
  obtain ⟨h6, h256, hfree⟩ := blokAjrat_some h
  refine ⟨?_, h256, hfree⟩
  by_contra hle
  rw [hm j (Nat.not_lt.1 hle)] at hfree
  exact Bool.false_ne_true hfree.symm

lemma boshi_bmYoq (hm : ∀ j ≤ dataBosh, bmBor m j = true) : ∀ l ≤ dataBosh, bmBor (bmYoq m j) l = true := by
  intro l hl
  rw [bmBor_bmYoq, hm l hl, Bool.or_true]

lemma ustki_malumotYoz (hm : ∀ j ≤ dataBosh, bmBor m j = true) (K : ℕ) :
    Ustki m d ((malumotYoz manba r k m x).cut d K) := by
  induction r generalizing d k m x K with
  | zero =>
    rw [malumotYoz, cut_pure]
    exact Ustki.refl m d
  | succ r ih =>
    cases h : blokAjrat m with
    | none =>
      rw [malumotYoz_full h, cut_fail]
      exact Ustki.refl m d
    | some j =>
      obtain ⟨hj, -, hfree⟩ := blokAjrat_gt hm h
      rw [malumotYoz_succ h]
      cases K with
      | zero =>
        rw [cut_zero]
        exact Ustki.refl m d
      | succ K =>
        rw [cut_write_bind]
        exact (ih (boshi_bmYoq hm) K).yoz hj hfree

lemma writes_malumotYoz_le : (malumotYoz manba r k m x).writes d ≤ r := by
  induction r generalizing d k m x with
  | zero => exact le_rfl
  | succ r ih =>
    cases h : blokAjrat m with
    | none =>
      rw [malumotYoz_full h]
      exact Nat.zero_le _
    | some j =>
      rw [malumotYoz_succ h, writes_bind rfl, writes_write, Nat.add_comm]
      exact Nat.succ_le_succ ih

lemma malumotYoz_ok (hm : ∀ j ≤ dataBosh, bmBor m j = true) (hr : k + r ≤ 12)
    (h : (malumotYoz manba r k m x).result d = .ok (m', x')) :
    (malumotYoz manba r k m x).writes d = r ∧
      Ajratilgan manba m k r x d ((malumotYoz manba r k m x).final d) m' x' := by
  induction r generalizing d k m x with
  | zero =>
    rw [malumotYoz, result_pure] at h
    obtain ⟨rfl, rfl⟩ := Prod.mk.inj (Except.ok.inj h)
    refine ⟨rfl, Ustki.refl m d, ?_, ?_, fun _ hj => hj, fun _ _ => rfl, rfl, rfl, ?_⟩
    · exact fun l h₁ h₂ => absurd h₂ (Nat.not_lt.2 h₁)
    · exact fun l l' h₁ h₂ => absurd h₂ (Nat.not_lt.2 h₁)
    · exact fun l h₁ h₂ => absurd h₂ (Nat.not_lt.2 h₁)
  | succ r ih =>
    cases ha : blokAjrat m with
    | none =>
      rw [malumotYoz_full ha, result_fail] at h
      cases h
    | some j =>
      obtain ⟨hj, hj', hfree⟩ := blokAjrat_gt hm ha
      rw [malumotYoz_succ ha] at h ⊢
      rw [result_bind rfl] at h
      rw [writes_bind rfl, final_bind rfl, writes_write]
      obtain ⟨hw, hfinal⟩ := ih (boshi_bmYoq hm) (by omega) h
      exact ⟨by rw [hw, Nat.add_comm], hfinal.cons hj hj' hfree (by omega)⟩

end Allocation

section Put

variable {b : Blok}

structure Joy (d : Tasvir) (manba : List UInt8) (nom : Nom) (i e : ℕ) : Prop where
  hajm : manba.length ≤ 12 * 512
  uzun : nom.1.length < 14
  yangi : ∀ g, (korinish d).Nomlangan g → yozuvNom (korinish d).katalog g ≠ nom.1
  inode : 0 < i ∧ i < 32 ∧ ((korinish d).inode i).tur = 0
  yozuv : e < 32 ∧ yozuvInode (korinish d).katalog e = 0

lemma boshYozuv_some (h : boshYozuv b = some e) : e < 32 ∧ yozuvInode b e = 0 := by
  rw [boshYozuv] at h
  have hfree := List.find?_some h
  rw [decide_eq_true_eq] at hfree
  exact ⟨List.mem_range.1 (List.mem_of_find?_eq_some h), hfree⟩

lemma topish_yangi (h : topish b nom = none) (hlen : nom.1.length < 14) (he : e < 32) (hi : yozuvInode b e ≠ 0) :
    yozuvNom b e ≠ nom.1 := by
  have hno := topish_none h he hi
  rwa [List.take_of_length_le (by omega)] at hno

lemma topish_joy (hj : Joy d manba nom i e) : topish (d dataBosh) nom = none := by
  cases hf : topish (d dataBosh) nom with
  | none => rfl
  | some g =>
    obtain ⟨hg, hi, hname⟩ := topish_some hf
    rw [List.take_of_length_le hj.uzun.le] at hname
    exact absurd hname (hj.yangi g ⟨hg, hi⟩)

lemma put_cases (manba : List UInt8) (nom : Nom) (h : (korinish d).Butun) :
    ((∃ s, put manba nom d = (.error s, [])) ∧ ∀ i e, ¬ Joy d manba nom i e) ∨
    ∃ i e, Joy d manba nom i e ∧
      put manba nom d = putYoz manba nom (d bitmapBlok) dataBosh (d dataBosh) i e d := by
  rw [put]
  split_ifs with hbig
  · exact .inl ⟨⟨_, rfl⟩, fun i e hj => Nat.not_le.2 hbig hj.hajm⟩
  rw [bind_of_reads (yukla_eq h), bind_of_reads (katalogYukla_eq h)]
  dsimp only
  split_ifs with hnom
  · refine .inl ⟨⟨_, rfl⟩, fun i e hj => ?_⟩
    rcases hnom with hlen | hold
    · exact Nat.not_le.2 hj.uzun hlen
    · rw [topish_joy hj] at hold
      cases hold
  obtain ⟨hlen, hnew⟩ := not_or.1 hnom
  have hrange : ∀ i ∈ List.range' 1 31, i < 32 := fun i hi => by
    rw [List.mem_range'_1] at hi
    omega
  rw [bind_of_reads (boshInode_eq hrange)]
  cases hi : (List.range' 1 31).find? fun i => (inodeOl d i).tur = 0 with
  | none =>
    refine .inl ⟨⟨_, rfl⟩, fun i e hj => ?_⟩
    obtain ⟨hpos, hlt, hfree⟩ := hj.inode
    rw [korinish_inode hlt] at hfree
    exact List.find?_eq_none.1 hi i (List.mem_range'_1.2 ⟨hpos, by omega⟩) (decide_eq_true hfree)
  | some i =>
    cases he : boshYozuv (d dataBosh) with
    | none =>
      refine .inl ⟨⟨_, rfl⟩, fun i e hj => ?_⟩
      exact List.find?_eq_none.1 he e (List.mem_range.2 hj.yozuv.1) (decide_eq_true hj.yozuv.2)
    | some e =>
      have hmem := List.mem_range'_1.1 (List.mem_of_find?_eq_some hi)
      have hfree := List.find?_some hi
      rw [decide_eq_true_eq] at hfree
      refine .inr ⟨i, e, ⟨Nat.not_lt.1 hbig, Nat.not_le.1 hlen, ?_, ?_, boshYozuv_some he⟩, rfl⟩
      · rw [Bool.not_eq_true, Option.isSome_eq_false_iff, Option.isNone_iff_eq_none] at hnew
        exact fun g hg => topish_yangi hnew (Nat.not_le.1 hlen) hg.1 hg.2
      · rw [korinish_inode (by omega)]
        exact ⟨by omega, by omega, hfree⟩

def bloklari (manba : List UInt8) : ℕ := (manba.length + 511) / 512

structure PutYozdi (manba : List UInt8) (nom : Nom) (i e : ℕ) (d t : Tasvir) (m' : Blok) (x' : Inode) : Prop where
  ajratilgan : Ajratilgan manba (d bitmapBlok) 0 (bloklari manba) (yangiInode manba) d t m' x'
  result : (putYoz manba nom (d bitmapBlok) dataBosh (d dataBosh) i e).result d = .ok ()
  writes : (putYoz manba nom (d bitmapBlok) dataBosh (d dataBosh) i e).writes d = bloklari manba + 3
  malumot : ∀ K ≤ bloklari manba, Ustki (d bitmapBlok) d
    ((putYoz manba nom (d bitmapBlok) dataBosh (d dataBosh) i e).cut d K)
  bitmap : korinish ((putYoz manba nom (d bitmapBlok) dataBosh (d dataBosh) i e).cut d (bloklari manba + 1)) =
    { korinish t with bitmap := m' }
  inode : korinish ((putYoz manba nom (d bitmapBlok) dataBosh (d dataBosh) i e).cut d (bloklari manba + 2)) =
    Korinish.inodeli { korinish t with bitmap := m' } i x'
  final : korinish ((putYoz manba nom (d bitmapBlok) dataBosh (d dataBosh) i e).final d) =
    (Korinish.inodeli { korinish t with bitmap := m' } i x').yozuvli e i nom.1

def yakun (nom : Nom) (kb : ℕ) (k : Blok) (i e : ℕ) (p : Blok × Inode) : Buyruq Unit :=
  Crashing.write (fun d => update d bitmapBlok p.1) >>= fun _ =>
    Crashing.write (fun d => inodeQoy d i p.2) >>= fun _ =>
      Crashing.write fun d => update d kb (nomQoy (inodeRaqamQoy k e i) e nom)

lemma putYoz_eq {kb : ℕ} (hi : i < 32) : putYoz manba nom m kb b i e =
    malumotYoz manba (bloklari manba) 0 m (yangiInode manba) >>= yakun nom kb b i e := by
  rw [putYoz]
  refine congrArg _ (funext fun p => ?_)
  dsimp only
  rw [inodeYoz_eq hi]
  rfl

lemma korinish_yakun_bitmap {p : Blok × Inode} :
    korinish ((yakun nom dataBosh b i e p).cut t 1) = { korinish t with bitmap := p.1 } := korinish_bitmap

lemma korinish_yakun_inode {p : Blok × Inode} (hi : i < 32) :
    korinish ((yakun nom dataBosh b i e p).cut t 2) = Korinish.inodeli { korinish t with bitmap := p.1 } i p.2 :=
  (korinish_inodeQoy hi).trans (congrArg (fun v => Korinish.inodeli v i p.2) korinish_bitmap)

lemma korinish_yakun {p : Blok × Inode} (hi : i < 32) (hb : b = (korinish t).katalog) :
    korinish ((yakun nom dataBosh b i e p).final t) =
      (Korinish.inodeli { korinish t with bitmap := p.1 } i p.2).yozuvli e i nom.1 := by
  have hwrite : (yakun nom dataBosh b i e p).final t =
      update (inodeQoy (update t bitmapBlok p.1) i p.2) dataBosh
        (nomQoy (inodeRaqamQoy b e i) e nom.1) := rfl
  rw [hwrite, korinish_katalog, korinish_inodeQoy hi, korinish_bitmap, hb]
  rfl

lemma putYoz_cases (h : (korinish d).Butun) (hj : Joy d manba nom i e) :
    (∃ s, (putYoz manba nom (d bitmapBlok) dataBosh (d dataBosh) i e).result d = .error s ∧
      (putYoz manba nom (d bitmapBlok) dataBosh (d dataBosh) i e).writes d ≤ bloklari manba ∧
      ∀ K, Ustki (d bitmapBlok) d ((putYoz manba nom (d bitmapBlok) dataBosh (d dataBosh) i e).cut d K)) ∨
    ∃ t m' x', PutYozdi manba nom i e d t m' x' := by
  have hi := hj.inode.2.1
  have hboshi : ∀ j ≤ dataBosh, bmBor (d bitmapBlok) j = true := h.boshi
  have hustki : ∀ K, Ustki (d bitmapBlok) d
      ((malumotYoz manba (bloklari manba) 0 (d bitmapBlok) (yangiInode manba)).cut d K) :=
    ustki_malumotYoz hboshi
  have hnb : 0 + bloklari manba ≤ 12 := by
    have hhajm := hj.hajm
    rw [bloklari]
    omega
  cases hr : (malumotYoz manba (bloklari manba) 0 (d bitmapBlok) (yangiInode manba)).result d with
  | error s =>
    refine .inl ⟨s, ?_, ?_, fun K => ?_⟩
    · rw [putYoz_eq hi]
      exact result_bind_error hr
    · rw [putYoz_eq hi, writes_bind_error hr]
      exact writes_malumotYoz_le
    · rw [putYoz_eq hi, cut_bind_error hr]
      exact hustki K
  | ok p =>
    obtain ⟨hw, ha⟩ := malumotYoz_ok hboshi hnb hr
    have hcut := fun K => cut_bind_add (f := yakun nom dataBosh (d dataBosh) i e) (k := K) hr
    rw [hw] at hcut
    have hkatalog : d dataBosh = (korinish
        ((malumotYoz manba (bloklari manba) 0 (d bitmapBlok) (yangiInode manba)).final d)).katalog := by
      obtain ⟨f, hf, -⟩ := ha.ustki
      exact (congrArg Korinish.katalog hf).symm
    refine .inr ⟨_, p.1, p.2, ha, ?_, ?_, fun K hK => ?_, ?_, ?_, ?_⟩
    · rw [putYoz_eq hi, result_bind hr]
      rfl
    · rw [putYoz_eq hi, writes_bind hr, hw]
      rfl
    · rw [putYoz_eq hi, cut_bind_of_le (hK.trans_eq hw.symm)]
      exact hustki K
    · rw [putYoz_eq hi, hcut]
      exact korinish_yakun_bitmap
    · rw [putYoz_eq hi, hcut]
      exact korinish_yakun_inode hi
    · rw [putYoz_eq hi, final_bind hr]
      exact korinish_yakun hi hkatalog

end Put

section Ustki

variable {l l' : List UInt8}

lemma Ustki.butun (h : (korinish d).Butun) (hu : Ustki m d t) : (korinish t).Butun := by
  obtain ⟨f, hf, -⟩ := hu
  rw [hf]
  exact h.data

lemma Ustki.saqlangan (h : (korinish d).Butun) (hu : Ustki (d bitmapBlok) d t)
    (hs : (korinish d).Saqlangan l l') : (korinish t).Saqlangan l l' := by
  obtain ⟨f, hf, hsame⟩ := hu
  rw [hf]
  exact hs.data h hsame

lemma Ustki.nomli (hu : Ustki m d t) (hn : (korinish d).Nomli) : (korinish t).Nomli := by
  obtain ⟨f, hf, -⟩ := hu
  rw [hf]
  exact hn

end Ustki

section Written

variable {l l' : List UInt8}

def bitmapli (t : Tasvir) (m' : Blok) : Korinish := { korinish t with bitmap := m' }

variable (h : (korinish d).Butun) (hj : Joy d manba nom i e)
  (ha : Ajratilgan manba (d bitmapBlok) 0 (bloklari manba) (yangiInode manba) d t m' x')

include ha in
lemma bitmapli_eq : ∃ f, bitmapli t m' = { korinish d with data := f, bitmap := m' } := by
  obtain ⟨f, hf, -⟩ := ha.ustki
  exact ⟨f, by rw [bitmapli, hf]⟩

include h ha in
lemma butun_bitmapli : (bitmapli t m').Butun := by
  have ht := ha.ustki.butun h
  obtain ⟨f, hf, -⟩ := ha.ustki
  have hbitmap : (korinish t).bitmap = d bitmapBlok := congrArg Korinish.bitmap hf
  refine ht.bitmap (fun j hj => ha.belgi j (h.boshi j hj)) fun i k j hi hk => ha.belgi j ?_
  rw [← hbitmap]
  exact ht.belgi i k j hi hk

include ha in
lemma band_bitmapli {j : ℕ} : (bitmapli t m').Band j ↔ (korinish d).Band j := by
  obtain ⟨f, hf⟩ := bitmapli_eq ha
  rw [hf]
  rfl

include ha in
lemma nomlangan_bitmapli {g : ℕ} : (bitmapli t m').Nomlangan g ↔ (korinish d).Nomlangan g := by
  obtain ⟨f, hf⟩ := bitmapli_eq ha
  rw [hf]
  rfl

include ha in
lemma bloki_bitmapli {a b j : ℕ} : (bitmapli t m').Bloki a b j ↔ (korinish d).Bloki a b j := by
  obtain ⟨f, hf⟩ := bitmapli_eq ha
  rw [hf]
  rfl

include ha in
lemma katalog_bitmapli : (bitmapli t m').katalog = (korinish d).katalog := by
  obtain ⟨f, hf⟩ := bitmapli_eq ha
  rw [hf]

include hj in
lemma toNat_hajm : (UInt32.ofNat manba.length).toNat = manba.length := by
  have hhajm := hj.hajm
  rw [UInt32.toNat_ofNat']
  omega

include hj ha in
lemma bloklar_eq : x'.bloklar = bloklari manba := by
  rw [Inode.bloklar, ha.hajm, yangiInode, toNat_hajm hj, bloklari]

include h hj ha in
lemma nomsiz {g : ℕ} (hg : (bitmapli t m').Nomlangan g) : yozuvInode (bitmapli t m').katalog g ≠ i := by
  rw [katalog_bitmapli ha]
  rintro rfl
  exact (h.yozuv g ((nomlangan_bitmapli ha).1 hg)).2.2 hj.inode.2.2

include h hj ha in
lemma butun_inodeli : ((bitmapli t m').inodeli i x').Butun := by
  have hb := bloklar_eq hj ha
  have hfree : ((bitmapli t m').inode i).tur = 0 := by
    obtain ⟨f, hf⟩ := bitmapli_eq ha
    rw [hf]
    exact hj.inode.2.2
  refine (butun_bitmapli h ha).inodeli hj.inode.1 hfree ha.tur ?_ ?_ ?_ ?_
  · rw [ha.hajm, yangiInode, toNat_hajm hj]
    exact hj.hajm
  · intro k hk
    obtain ⟨h₁, h₂, -, h₄⟩ := ha.oraliq k (Nat.zero_le k) (by omega)
    exact ⟨h₁, h₂, h₄⟩
  · intro k hk l hl heq
    exact ha.yagona k l (Nat.zero_le k) (by omega) (Nat.zero_le l) (by omega) heq
  · intro j k l hband hbloki hk
    -- the blocks of the other files were marked when this one was allocated
    have hused := h.belgi j l _ ((band_bitmapli ha).1 hband) ((bloki_bitmapli ha).1 hbloki)
    have hunused := (ha.oraliq k (Nat.zero_le k) (by omega)).2.2.1
    exact Bool.false_ne_true (hunused.symm.trans hused)

include h hj ha in
lemma butun_yozuvli : (((bitmapli t m').inodeli i x').yozuvli e i nom.1).Butun := by
  have hband : ((bitmapli t m').inodeli i x').Band i := by
    refine ⟨hj.inode.1, hj.inode.2.1, ?_⟩
    rw [Korinish.inode_inodeli_self, ha.tur]
    exact (by decide : (1 : UInt16) ≠ 0)
  refine (butun_inodeli h hj ha).yozuvli hband nom.2 hj.uzun (fun _ hg => nomsiz h hj ha hg) fun g hg => ?_
  show yozuvNom (bitmapli t m').katalog g ≠ nom.1
  rw [katalog_bitmapli ha]
  exact hj.yangi g ((nomlangan_bitmapli ha).1 hg)

include h ha in
lemma saqlangan_bitmapli (hs : (korinish d).Saqlangan l l') : (bitmapli t m').Saqlangan l l' :=
  ha.ustki.saqlangan h hs

include h hj ha in
lemma saqlangan_inodeli (hs : (korinish d).Saqlangan l l') : ((bitmapli t m').inodeli i x').Saqlangan l l' :=
  (saqlangan_bitmapli h ha hs).inodeli fun _ hg => nomsiz h hj ha hg

include h hj ha in
lemma saqlangan_yozuvli (hs : (korinish d).Saqlangan l l') :
    (((bitmapli t m').inodeli i x').yozuvli e i nom.1).Saqlangan l l' := by
  refine (saqlangan_inodeli h hj ha hs).yozuvli nom.2 hj.uzun hj.inode.2.1 ?_
  show yozuvInode (bitmapli t m').katalog e = 0
  rw [katalog_bitmapli ha]
  exact hj.yozuv.2

include hj ha in
lemma saqlangan_put : (((bitmapli t m').inodeli i x').yozuvli e i nom.1).Saqlangan nom.1 manba := by
  have hmazmun : ((bitmapli t m').inodeli i x').Mazmun i manba := by
    constructor
    · rw [Korinish.inode_inodeli_self, ha.hajm]
      exact toNat_hajm hj
    · intro k j hk l hl
      obtain ⟨hlt, rfl⟩ := Korinish.bloki_inodeli_self.1 hk
      rw [bloklar_eq hj ha] at hlt
      have hgt := (ha.oraliq k (Nat.zero_le k) (by omega)).1
      have hdata : (korinish t).data (x'.raqam k) l = qism manba k l := by
        rw [korinish_data_eq hgt, ha.malumot k (Nat.zero_le k) (by omega)]
      exact hdata.trans (if_pos hl)
  exact hmazmun.yozuvli hj.yozuv.1 hj.inode.1 hj.inode.2.1 nom.2 hj.uzun

include ha in
lemma nomli_bitmapli (hn : (korinish d).Nomli) : (bitmapli t m').Nomli := ha.ustki.nomli hn

include hj ha in
lemma nomli_put (hn : (korinish d).Nomli) : (((bitmapli t m').inodeli i x').yozuvli e i nom.1).Nomli := by
  refine Korinish.Nomli.yozuvli (fun j hj' hji => ?_) hj.yozuv.1 hj.inode.1 hj.inode.2.1 ?_
  · exact nomli_bitmapli ha hn j ((Korinish.band_inodeli hji).1 hj')
  · show yozuvInode (bitmapli t m').katalog e = 0
    rw [katalog_bitmapli ha]
    exact hj.yozuv.2

end Written

section Rm

variable {b : Blok}

lemma rm_cases (nom : Nom) (h : (korinish d).Butun) : (∃ s, rm nom d = (.error s, [])) ∨
    ∃ e, (korinish d).Nomlangan e ∧ yozuvNom (korinish d).katalog e = nom.1.take 14 ∧
      rm nom d = rmYoz (d bitmapBlok) dataBosh (d dataBosh) e d := by
  rw [rm, bind_of_reads (yukla_eq h), bind_of_reads (katalogYukla_eq h)]
  dsimp only
  cases he : topish (d dataBosh) nom with
  | none => exact .inl ⟨_, rfl⟩
  | some e =>
    obtain ⟨hlt, hi, hnom⟩ := topish_some he
    exact .inr ⟨e, ⟨hlt, hi⟩, hnom, rfl⟩

structure RmYozdi (e : ℕ) (d : Tasvir) (m' : Blok) : Prop where
  result : (rmYoz (d bitmapBlok) dataBosh (d dataBosh) e).result d = .ok ()
  writes : (rmYoz (d bitmapBlok) dataBosh (d dataBosh) e).writes d = 3
  katalog : korinish ((rmYoz (d bitmapBlok) dataBosh (d dataBosh) e).cut d 1) = (korinish d).yozuvsiz e
  inode : korinish ((rmYoz (d bitmapBlok) dataBosh (d dataBosh) e).cut d 2) =
    ((korinish d).yozuvsiz e).inodeli (yozuvInode (korinish d).katalog e) {}
  final : korinish ((rmYoz (d bitmapBlok) dataBosh (d dataBosh) e).final d) =
    { ((korinish d).yozuvsiz e).inodeli (yozuvInode (korinish d).katalog e) {} with bitmap := m' }
  belgi : ∀ j, bmBor m' j = true ↔ bmBor (korinish d).bitmap j = true ∧
    ∀ k, ¬ (korinish d).Bloki (yozuvInode (korinish d).katalog e) k j

def ochilgan (m : Blok) (x : Inode) : Blok := (List.range x.bloklar).foldl (fun m i => bmOch m (x.raqam i)) m

lemma bmBor_foldl_bmOch (l : List ℕ) (f : ℕ → ℕ) :
    bmBor (l.foldl (fun m i => bmOch m (f i)) m) j = true ↔ bmBor m j = true ∧ ∀ k ∈ l, f k ≠ j := by
  induction l generalizing m with
  | nil => simp
  | cons a l ih =>
    rw [List.foldl_cons, ih, bmBor_bmOch, Bool.and_eq_true, Bool.not_eq_true', decide_eq_false_iff_not,
      List.forall_mem_cons]
    constructor
    · intro ⟨⟨hne, hm⟩, hrest⟩
      exact ⟨hm, fun heq => hne heq.symm, hrest⟩
    · intro ⟨hm, hne, hrest⟩
      exact ⟨⟨fun heq => hne heq.symm, hm⟩, hrest⟩

def ochirish (m b : Blok) (e : ℕ) (x : Inode) : Buyruq Unit :=
  Crashing.write (fun d => update d dataBosh (inodeRaqamQoy b e 0)) >>= fun _ =>
    Crashing.write (fun d => inodeQoy d (yozuvInode b e) {}) >>= fun _ =>
      Crashing.write fun d => update d bitmapBlok (ochilgan m x)

lemma rmYoz_eq (hi : yozuvInode b e < 32) :
    rmYoz m dataBosh b e d = ochirish m b e (inodeOl d (yozuvInode b e)) d := by
  rw [rmYoz, bind_of_reads (inodeOqi_eq hi), inodeYoz_eq hi]
  rfl

lemma korinish_ochirish_katalog : korinish ((ochirish m (d dataBosh) e x).cut d 1) = (korinish d).yozuvsiz e :=
  korinish_katalog

lemma korinish_ochirish_inode (hi : yozuvInode (d dataBosh) e < 32) :
    korinish ((ochirish m (d dataBosh) e x).cut d 2) =
      ((korinish d).yozuvsiz e).inodeli (yozuvInode (d dataBosh) e) {} :=
  (korinish_inodeQoy hi).trans (congrArg (fun v => Korinish.inodeli v (yozuvInode (d dataBosh) e) {}) korinish_katalog)

lemma korinish_ochirish (hi : yozuvInode (d dataBosh) e < 32) :
    korinish ((ochirish m (d dataBosh) e x).final d) =
      { ((korinish d).yozuvsiz e).inodeli (yozuvInode (d dataBosh) e) {} with bitmap := ochilgan m x } := by
  have hwrite : (ochirish m (d dataBosh) e x).final d =
      update (inodeQoy (update d dataBosh (inodeRaqamQoy (d dataBosh) e 0))
        (yozuvInode (d dataBosh) e) {}) bitmapBlok (ochilgan m x) := rfl
  rw [hwrite, korinish_bitmap, korinish_inodeQoy hi, korinish_katalog]
  rfl

lemma rmYoz_yozdi (h : (korinish d).Butun) (he : (korinish d).Nomlangan e) : ∃ m', RmYozdi e d m' := by
  have hi : yozuvInode (d dataBosh) e < 32 := (h.yozuv e he).2.1
  have heq := rmYoz_eq (d := d) (m := d bitmapBlok) hi
  have hinode : (korinish d).inode (yozuvInode (d dataBosh) e) = inodeOl d (yozuvInode (d dataBosh) e) :=
    korinish_inode hi
  refine ⟨ochilgan (d bitmapBlok) (inodeOl d (yozuvInode (d dataBosh) e)), ?_, ?_, ?_, ?_, ?_, fun j => ?_⟩
  · rw [result_congr heq]
    rfl
  · rw [writes_congr heq]
    rfl
  · rw [cut_congr heq]
    exact korinish_ochirish_katalog
  · rw [cut_congr heq]
    exact korinish_ochirish_inode hi
  · rw [final_congr heq]
    exact korinish_ochirish hi
  · refine (bmBor_foldl_bmOch _ _).trans (and_congr_right fun _ => forall_congr' fun k => ?_)
    show _ ↔ ¬ (k < ((korinish d).inode (yozuvInode (d dataBosh) e)).bloklar ∧
      ((korinish d).inode (yozuvInode (d dataBosh) e)).raqam k = j)
    rw [hinode, not_and, List.mem_range]

end Rm

section Cuts

variable {P : Korinish → Prop} {l l' : List UInt8}

lemma put_cut (h : (korinish d).Butun) (hustki : ∀ t, Ustki (d bitmapBlok) d t → P (korinish t))
    (hyozildi : ∀ i e t m' x', Joy d manba nom i e →
      Ajratilgan manba (d bitmapBlok) 0 (bloklari manba) (yangiInode manba) d t m' x' →
      P (bitmapli t m') ∧ (K = bloklari manba + 2 → P ((bitmapli t m').inodeli i x')) ∧
        P (((bitmapli t m').inodeli i x').yozuvli e i nom.1)) : P (korinish ((put manba nom).cut d K)) := by
  rcases put_cases manba nom h with ⟨⟨s, hs⟩, -⟩ | ⟨i, e, hj, heq⟩
  · rw [cut_congr (y := fail s) hs, cut_fail]
    exact hustki d (Ustki.refl _ d)
  · rw [cut_congr heq]
    rcases putYoz_cases h hj with ⟨s, -, -, hcut⟩ | ⟨t, m', x', hp⟩
    · exact hustki _ (hcut K)
    · obtain ⟨hbitmap, hinode, hfinal⟩ := hyozildi i e t m' x' hj hp.ajratilgan
      rcases Nat.lt_or_ge (bloklari manba) K with hK | hK
      · obtain rfl | rfl | hlast : K = bloklari manba + 1 ∨ K = bloklari manba + 2 ∨ bloklari manba + 3 ≤ K := by
          omega
        · rw [hp.bitmap]
          exact hbitmap
        · rw [hp.inode]
          exact hinode rfl
        · rw [cut_of_writes_le (hp.writes.trans_le hlast), hp.final]
          exact hfinal
      · exact hustki _ (hp.malumot K hK)

lemma butun_put (h : (korinish d).Butun) : (korinish ((put manba nom).cut d K)).Butun :=
  put_cut h (fun _ ht => ht.butun h) fun _ _ _ _ _ hj ha =>
    ⟨butun_bitmapli h ha, fun _ => butun_inodeli h hj ha, butun_yozuvli h hj ha⟩

lemma saqlangan_put_cut (h : (korinish d).Butun) (hs : (korinish d).Saqlangan l l') :
    (korinish ((put manba nom).cut d K)).Saqlangan l l' :=
  put_cut (P := fun v => v.Saqlangan l l') h (fun _ ht => ht.saqlangan h hs) fun _ _ _ _ _ hj ha =>
    ⟨saqlangan_bitmapli h ha hs, fun _ => saqlangan_inodeli h hj ha hs, saqlangan_yozuvli h hj ha hs⟩

lemma nomli_put_cut (h : (korinish d).Butun) (hn : (korinish d).Nomli) (hK : K ≠ bloklari manba + 2) :
    (korinish ((put manba nom).cut d K)).Nomli :=
  put_cut h (fun _ ht => ht.nomli hn) fun _ _ _ _ _ hj ha =>
    ⟨nomli_bitmapli ha hn, fun hcut => absurd hcut hK, nomli_put hj ha hn⟩

lemma nomli_put_final (h : (korinish d).Butun) (hn : (korinish d).Nomli) :
    (korinish ((put manba nom).final d)).Nomli := by
  obtain ⟨K, hK, hcut⟩ := exists_cut_eq_final (put manba nom) d (bloklari manba + 2)
  rw [← hcut]
  exact nomli_put_cut h hn hK

lemma saqlangan_put_ok (h : (korinish d).Butun) (hok : (put manba nom).result d = .ok ()) :
    (korinish ((put manba nom).final d)).Saqlangan nom.1 manba := by
  rcases put_cases manba nom h with ⟨⟨s, hs⟩, -⟩ | ⟨i, e, hj, heq⟩
  · rw [result_congr (y := fail s) hs, result_fail] at hok
    cases hok
  · rw [result_congr heq] at hok
    rcases putYoz_cases h hj with ⟨s, herror, -, -⟩ | ⟨t, m', x', hp⟩
    · rw [herror] at hok
      cases hok
    · rw [final_congr heq, hp.final]
      exact saqlangan_put hj hp.ajratilgan

lemma rm_cut (h : (korinish d).Butun) (hsame : P (korinish d))
    (hyozildi : ∀ e m', (korinish d).Nomlangan e → yozuvNom (korinish d).katalog e = nom.1.take 14 →
      RmYozdi e d m' → (K = 1 → P ((korinish d).yozuvsiz e)) ∧
      P (((korinish d).yozuvsiz e).inodeli (yozuvInode (korinish d).katalog e) {}) ∧
      P { ((korinish d).yozuvsiz e).inodeli (yozuvInode (korinish d).katalog e) {} with bitmap := m' }) :
    P (korinish ((rm nom).cut d K)) := by
  rcases rm_cases nom h with ⟨s, hs⟩ | ⟨e, he, hnom, heq⟩
  · rw [cut_congr (y := fail s) hs, cut_fail]
    exact hsame
  · obtain ⟨m', hp⟩ := rmYoz_yozdi h he
    obtain ⟨hkatalog, hinode, hfinal⟩ := hyozildi e m' he hnom hp
    rw [cut_congr heq]
    obtain rfl | rfl | rfl | hlast : K = 0 ∨ K = 1 ∨ K = 2 ∨ 3 ≤ K := by omega
    · rw [cut_zero]
      exact hsame
    · rw [hp.katalog]
      exact hkatalog rfl
    · rw [hp.inode]
      exact hinode
    · rw [cut_of_writes_le (hp.writes.trans_le hlast), hp.final]
      exact hfinal

lemma butun_ochirish (h : (korinish d).Butun) (he : (korinish d).Nomlangan e) :
    (((korinish d).yozuvsiz e).inodeli (yozuvInode (korinish d).katalog e) {}).Butun :=
  h.yozuvsiz.inodesiz (h.yozuv e he).1 fun _ hg => h.yozuvsiz_ne he hg

lemma RmYozdi.butun (hp : RmYozdi e d m') (h : (korinish d).Butun) (he : (korinish d).Nomlangan e) :
    Korinish.Butun { ((korinish d).yozuvsiz e).inodeli (yozuvInode (korinish d).katalog e) {} with bitmap := m' } := by
  refine (butun_ochirish h he).bitmap (fun j hj => (hp.belgi j).2 ⟨h.boshi j hj, fun k hk => ?_⟩) ?_
  · exact absurd (h.oraliq _ k j (h.yozuv e he) hk).1 (Nat.not_lt.2 hj)
  · intro i k j hi hk
    have hie : i ≠ yozuvInode (korinish d).katalog e := by
      rintro rfl
      exact hi.2.2 (congrArg Inode.tur Korinish.inode_inodeli_self)
    have hband : (korinish d).Band i := (Korinish.band_inodeli hie).1 hi
    have hbloki : (korinish d).Bloki i k j := (Korinish.bloki_inodeli hie).1 hk
    exact (hp.belgi j).2 ⟨h.belgi i k j hband hbloki, fun k' hk' =>
      hie (h.yagona i _ k k' j hband (h.yozuv e he) hbloki hk').1⟩

lemma butun_rm (h : (korinish d).Butun) : (korinish ((rm nom).cut d K)).Butun :=
  rm_cut h h fun _ _ he _ hp => ⟨fun _ => h.yozuvsiz, butun_ochirish h he, hp.butun h he⟩

lemma saqlangan_rm_cut (h : (korinish d).Butun) (hs : (korinish d).Saqlangan l l') (hl : l ≠ nom.1) :
    (korinish ((rm nom).cut d K)).Saqlangan l l' := by
  refine rm_cut (P := fun v => v.Saqlangan l l') h hs fun e m' he hnom _ => ?_
  have hlen := h.nomUzun e he
  have hne : l ≠ yozuvNom (korinish d).katalog e := by
    rw [hnom] at hlen ⊢
    rw [List.length_take] at hlen
    rwa [List.take_of_length_le (by omega)]
  have hcleared := (hs.yozuvsiz hne).inodeli (x := {}) fun g hg => h.yozuvsiz_ne he hg
  exact ⟨fun _ => hs.yozuvsiz hne, hcleared, hcleared⟩

lemma nomli_rm_cut (h : (korinish d).Butun) (hn : (korinish d).Nomli) (hK : K ≠ 1) :
    (korinish ((rm nom).cut d K)).Nomli :=
  rm_cut h hn fun _ _ _ _ _ => ⟨fun hcut => absurd hcut hK, hn.ochirish, hn.ochirish⟩

lemma nomli_rm_final (h : (korinish d).Butun) (hn : (korinish d).Nomli) :
    (korinish ((rm nom).final d)).Nomli := by
  obtain ⟨K, hK, hcut⟩ := exists_cut_eq_final (rm nom) d 1
  rw [← hcut]
  exact nomli_rm_cut h hn hK

end Cuts

end MyOS.Mfs
