import MyOS.Mfs.Buyruqlar

/-! What an image means, and what is true of it however the commands are interrupted. -/

namespace MyOS.Mfs

open Library Function

/-- An image as its parts: the magic number, the inodes, the bitmap, the directory and the data blocks. -/
@[ext]
structure Korinish where
  magik : ℕ
  inode : ℕ → Inode
  bitmap : Blok
  katalog : Blok
  data : ℕ → Blok

def korinish (d : Tasvir) : Korinish where
  magik := Bytes.read (d 0) 0 4
  inode i := if i < 32 then inodeOl d i else {}
  bitmap := d bitmapBlok
  katalog := d dataBosh
  data j := if dataBosh < j then d j else fun _ => 0

section Writes

variable {d : Tasvir} {b : Blok} {i n : ℕ} {x : Inode}

lemma korinish_bitmap : korinish (update d bitmapBlok b) = { korinish d with bitmap := b } := by
  apply Korinish.ext
  · rw [korinish, update_of_ne (by decide)]
    rfl
  · funext j
    simp only [korinish]
    split_ifs with hj
    · exact inodeOl_update hj (.inl (by decide))
    · rfl
  · exact update_self bitmapBlok b d
  · exact update_of_ne (show dataBosh ≠ bitmapBlok by decide) b d
  · funext j
    simp only [korinish]
    split_ifs with hj
    · exact update_of_ne (by rw [dataBosh] at hj; rw [bitmapBlok]; omega) _ _
    · rfl

lemma korinish_katalog : korinish (update d dataBosh b) = { korinish d with katalog := b } := by
  apply Korinish.ext
  · rw [korinish, update_of_ne (by decide)]
    rfl
  · funext j
    simp only [korinish]
    split_ifs with hj
    · exact inodeOl_update hj (.inr (by decide))
    · rfl
  · exact update_of_ne (show bitmapBlok ≠ dataBosh by decide) b d
  · exact update_self dataBosh b d
  · funext j
    simp only [korinish]
    split_ifs with hj
    · exact update_of_ne (by omega) _ _
    · rfl

lemma korinish_inodeQoy (hi : i < 32) :
    korinish (inodeQoy d i x) = { korinish d with inode := update (korinish d).inode i x } := by
  apply Korinish.ext
  · rw [korinish, inodeQoy_of_ne hi (.inl (by decide))]
    rfl
  · funext j
    by_cases hji : j = i
    · subst hji
      dsimp only
      rw [update_self, korinish]
      dsimp only
      rw [if_pos hi, inodeOl_inodeQoy, if_pos rfl]
    · dsimp only
      rw [update_of_ne hji, korinish, korinish]
      dsimp only
      rw [inodeOl_inodeQoy, if_neg hji]
  · exact inodeQoy_of_ne hi (.inl (by decide))
  · exact inodeQoy_of_ne hi (.inr (by decide))
  · funext j
    simp only [korinish]
    split_ifs with hj
    · exact inodeQoy_of_ne hi (.inr hj.le)
    · rfl

lemma korinish_data (hn : dataBosh < n) :
    korinish (update d n b) = { korinish d with data := update (korinish d).data n b } := by
  have h6 : dataBosh = 6 := rfl
  apply Korinish.ext
  · rw [korinish, update_of_ne (by omega)]
    rfl
  · funext j
    simp only [korinish]
    split_ifs with hj
    · exact inodeOl_update hj (.inr (by omega))
    · rfl
  · exact update_of_ne (by rw [bitmapBlok]; omega) _ _
  · exact update_of_ne (by omega) _ _
  · funext j
    by_cases hjn : j = n
    · subst hjn
      dsimp only
      rw [update_self, korinish]
      dsimp only
      rw [if_pos hn, update_self]
    · dsimp only
      rw [update_of_ne hjn, korinish, korinish]
      dsimp only
      rw [update_of_ne hjn]

end Writes

namespace Korinish

variable (v : Korinish)

def Band (i : ℕ) : Prop := 0 < i ∧ i < 32 ∧ (v.inode i).tur ≠ 0

def Nomlangan (e : ℕ) : Prop := e < 32 ∧ yozuvInode v.katalog e ≠ 0

def Bloki (i k j : ℕ) : Prop := k < (v.inode i).bloklar ∧ (v.inode i).raqam k = j

structure Butun : Prop where
  magik : v.magik = Mfs.magik
  ildiz : v.inode 0 = ildiz
  boshi : ∀ j ≤ dataBosh, bmBor v.bitmap j = true
  tur : ∀ i, v.Band i → (v.inode i).tur = 1
  hajm : ∀ i, v.Band i → (v.inode i).hajm.toNat ≤ 12 * 512
  oraliq : ∀ i k j, v.Band i → v.Bloki i k j → dataBosh < j ∧ j < 256
  belgi : ∀ i k j, v.Band i → v.Bloki i k j → bmBor v.bitmap j = true
  yagona : ∀ i i' k k' j, v.Band i → v.Band i' → v.Bloki i k j → v.Bloki i' k' j → i = i' ∧ k = k'
  yozuv : ∀ e, v.Nomlangan e → v.Band (yozuvInode v.katalog e)
  inodeYagona : ∀ e f, v.Nomlangan e → v.Nomlangan f → yozuvInode v.katalog e = yozuvInode v.katalog f → e = f
  nomYagona : ∀ e f, v.Nomlangan e → v.Nomlangan f → yozuvNom v.katalog e = yozuvNom v.katalog f → e = f
  nomUzun : ∀ e, v.Nomlangan e → (yozuvNom v.katalog e).length < 14

def Nomli : Prop := ∀ i, v.Band i → ∃ e, v.Nomlangan e ∧ yozuvInode v.katalog e = i

def Mazmun (i : ℕ) (manba : List UInt8) : Prop :=
  (v.inode i).hajm.toNat = manba.length ∧
    ∀ k j, v.Bloki i k j → ∀ l < 512, v.data j l = manba.getD (512 * k + l) 0

def Saqlangan (nom manba : List UInt8) : Prop :=
  ∃ e, v.Nomlangan e ∧ yozuvNom v.katalog e = nom ∧ v.Mazmun (yozuvInode v.katalog e) manba

variable {v} {f : ℕ → Blok} {m k : Blok} {i e n : ℕ} {x : Inode} {nom manba : List UInt8}

section Data

lemma Butun.data (h : v.Butun) : Butun { v with data := f } := { h with }

lemma Saqlangan.data (h : v.Butun) (hf : ∀ j, bmBor v.bitmap j = true → f j = v.data j)
    (hs : v.Saqlangan nom manba) : Saqlangan { v with data := f } nom manba := by
  obtain ⟨e, he, hnom, hhajm, hdata⟩ := hs
  refine ⟨e, he, hnom, hhajm, fun k j hk l hl => ?_⟩
  have hsame := hf j (h.belgi _ k j (h.yozuv e he) hk)
  exact (congrFun hsame l).trans (hdata k j hk l hl)

end Data

section Bitmap

lemma Butun.bitmap (h : v.Butun) (hm : ∀ j ≤ dataBosh, bmBor m j = true)
    (hb : ∀ i k j, v.Band i → v.Bloki i k j → bmBor m j = true) : Butun { v with bitmap := m } :=
  { h with boshi := hm, belgi := hb }

end Bitmap

section Inode

def inodeli (v : Korinish) (i : ℕ) (x : Inode) : Korinish := { v with inode := update v.inode i x }

variable {j l : ℕ}

lemma inode_inodeli_self : (v.inodeli i x).inode i = x := by simp only [inodeli, update_self]

lemma inode_inodeli (h : j ≠ i) : (v.inodeli i x).inode j = v.inode j := by
  simp only [inodeli, update_of_ne h]

lemma band_inodeli (h : j ≠ i) : (v.inodeli i x).Band j ↔ v.Band j := by rw [Band, inode_inodeli h, Band]

lemma bloki_inodeli (h : j ≠ i) : (v.inodeli i x).Bloki j l n ↔ v.Bloki j l n := by
  rw [Bloki, inode_inodeli h, Bloki]

lemma bloki_inodeli_self : (v.inodeli i x).Bloki i l n ↔ l < x.bloklar ∧ x.raqam l = n := by
  rw [Bloki, inode_inodeli_self]

lemma Butun.inodeli (h : v.Butun) (h0 : 0 < i) (hfree : (v.inode i).tur = 0) (hx : x.tur = 1)
    (hhajm : x.hajm.toNat ≤ 12 * 512)
    (hblok : ∀ k < x.bloklar, dataBosh < x.raqam k ∧ x.raqam k < 256 ∧ bmBor v.bitmap (x.raqam k) = true)
    (hyagona : ∀ k < x.bloklar, ∀ l < x.bloklar, x.raqam k = x.raqam l → k = l)
    (hnew : ∀ j k l, v.Band j → v.Bloki j l (x.raqam k) → k < x.bloklar → False) : (v.inodeli i x).Butun := by
  refine { h with ildiz := ?_, tur := ?_, hajm := ?_, oraliq := ?_, belgi := ?_, yagona := ?_, yozuv := ?_ }
  · exact (inode_inodeli (Nat.ne_of_lt h0)).trans h.ildiz
  · intro j hj
    by_cases hji : j = i
    · subst hji
      rwa [inode_inodeli_self]
    · rw [inode_inodeli hji]
      exact h.tur j ((band_inodeli hji).1 hj)
  · intro j hj
    by_cases hji : j = i
    · subst hji
      rwa [inode_inodeli_self]
    · rw [inode_inodeli hji]
      exact h.hajm j ((band_inodeli hji).1 hj)
  · intro j k n hj hk
    by_cases hji : j = i
    · subst hji
      obtain ⟨hlt, rfl⟩ := bloki_inodeli_self.1 hk
      exact ⟨(hblok k hlt).1, (hblok k hlt).2.1⟩
    · exact h.oraliq j k n ((band_inodeli hji).1 hj) ((bloki_inodeli hji).1 hk)
  · intro j k n hj hk
    by_cases hji : j = i
    · subst hji
      obtain ⟨hlt, rfl⟩ := bloki_inodeli_self.1 hk
      exact (hblok k hlt).2.2
    · exact h.belgi j k n ((band_inodeli hji).1 hj) ((bloki_inodeli hji).1 hk)
  · intro j j' k k' n hj hj' hk hk'
    by_cases hji : j = i
    · subst hji
      obtain ⟨hlt, rfl⟩ := bloki_inodeli_self.1 hk
      by_cases hji' : j' = j
      · subst hji'
        obtain ⟨hlt', heq⟩ := bloki_inodeli_self.1 hk'
        exact ⟨rfl, (hyagona k' hlt' k hlt heq).symm⟩
      · exact (hnew j' k k' ((band_inodeli hji').1 hj') ((bloki_inodeli hji').1 hk') hlt).elim
    · have hold := (bloki_inodeli hji).1 hk
      by_cases hji' : j' = i
      · subst hji'
        obtain ⟨hlt, rfl⟩ := bloki_inodeli_self.1 hk'
        exact (hnew j k' k ((band_inodeli hji).1 hj) hold hlt).elim
      · exact h.yagona j j' k k' n ((band_inodeli hji).1 hj) ((band_inodeli hji').1 hj') hold
          ((bloki_inodeli hji').1 hk')
  · intro e he
    have hband := h.yozuv e he
    refine (band_inodeli ?_).2 hband
    intro hei
    exact hband.2.2 (hei ▸ hfree)

lemma Butun.inodesiz (h : v.Butun) (h0 : 0 < i) (hno : ∀ e, v.Nomlangan e → yozuvInode v.katalog e ≠ i) :
    (v.inodeli i {}).Butun := by
  have hne : ∀ j, (v.inodeli i {}).Band j → j ≠ i := by
    rintro j hj rfl
    exact hj.2.2 (congrArg Inode.tur inode_inodeli_self)
  refine { h with ildiz := ?_, tur := ?_, hajm := ?_, oraliq := ?_, belgi := ?_, yagona := ?_, yozuv := ?_ }
  · exact (inode_inodeli (Nat.ne_of_lt h0)).trans h.ildiz
  · intro j hj
    rw [inode_inodeli (hne j hj)]
    exact h.tur j ((band_inodeli (hne j hj)).1 hj)
  · intro j hj
    rw [inode_inodeli (hne j hj)]
    exact h.hajm j ((band_inodeli (hne j hj)).1 hj)
  · intro j k n hj hk
    exact h.oraliq j k n ((band_inodeli (hne j hj)).1 hj) ((bloki_inodeli (hne j hj)).1 hk)
  · intro j k n hj hk
    exact h.belgi j k n ((band_inodeli (hne j hj)).1 hj) ((bloki_inodeli (hne j hj)).1 hk)
  · intro j j' k k' n hj hj' hk hk'
    exact h.yagona j j' k k' n ((band_inodeli (hne j hj)).1 hj) ((band_inodeli (hne j' hj')).1 hj')
      ((bloki_inodeli (hne j hj)).1 hk) ((bloki_inodeli (hne j' hj')).1 hk')
  · intro e he
    exact (band_inodeli (hno e he)).2 (h.yozuv e he)

lemma Saqlangan.inodeli (hs : v.Saqlangan nom manba) (hno : ∀ e, v.Nomlangan e → yozuvInode v.katalog e ≠ i) :
    (v.inodeli i x).Saqlangan nom manba := by
  obtain ⟨e, he, hnom, hhajm, hdata⟩ := hs
  have hne := hno e he
  refine ⟨e, he, hnom, ?_, fun k j hk => hdata k j ((bloki_inodeli hne).1 hk)⟩
  exact (congrArg (fun y : Inode => y.hajm.toNat) (inode_inodeli hne)).trans hhajm

end Inode

section Katalog

def yozuvli (v : Korinish) (e i : ℕ) (nom : List UInt8) : Korinish :=
  { v with katalog := nomQoy (inodeRaqamQoy v.katalog e i) e nom }

def yozuvsiz (v : Korinish) (e : ℕ) : Korinish := { v with katalog := inodeRaqamQoy v.katalog e 0 }

variable {g : ℕ}

lemma yozuvInode_yozuvli (hi : i < 32) :
    yozuvInode (v.yozuvli e i nom).katalog g = if g = e then i else yozuvInode v.katalog g :=
  yozuvInode_nomQoy.trans (yozuvInode_inodeRaqamQoy hi)

lemma yozuvNom_yozuvli (h0 : 0 ∉ nom) (hlen : nom.length < 14) :
    yozuvNom (v.yozuvli e i nom).katalog g = if g = e then nom else yozuvNom v.katalog g := by
  rw [yozuvli, yozuvNom_nomQoy h0 hlen, yozuvNom_inodeRaqamQoy]

lemma nomlangan_yozuvli (hi : i < 32) (h : (v.yozuvli e i nom).Nomlangan g) (hne : g ≠ e) : v.Nomlangan g := by
  refine ⟨h.1, ?_⟩
  have hg := h.2
  rwa [yozuvInode_yozuvli hi, if_neg hne] at hg

lemma Butun.yozuvli (h : v.Butun) (hi : v.Band i) (h0 : 0 ∉ nom) (hlen : nom.length < 14)
    (hno : ∀ g, v.Nomlangan g → yozuvInode v.katalog g ≠ i)
    (hnew : ∀ g, v.Nomlangan g → yozuvNom v.katalog g ≠ nom) : (v.yozuvli e i nom).Butun := by
  refine { h with yozuv := ?_, inodeYagona := ?_, nomYagona := ?_, nomUzun := ?_ }
  · intro g hg
    show v.Band _
    rw [yozuvInode_yozuvli hi.2.1]
    split_ifs with hge
    · exact hi
    · exact h.yozuv g (nomlangan_yozuvli hi.2.1 hg hge)
  · intro g g' hg hg' heq
    rw [yozuvInode_yozuvli hi.2.1, yozuvInode_yozuvli hi.2.1] at heq
    by_cases hge : g = e <;> by_cases hge' : g' = e
    · rw [hge, hge']
    · rw [if_pos hge, if_neg hge'] at heq
      exact (hno g' (nomlangan_yozuvli hi.2.1 hg' hge') heq.symm).elim
    · rw [if_neg hge, if_pos hge'] at heq
      exact (hno g (nomlangan_yozuvli hi.2.1 hg hge) heq).elim
    · rw [if_neg hge, if_neg hge'] at heq
      exact h.inodeYagona g g' (nomlangan_yozuvli hi.2.1 hg hge) (nomlangan_yozuvli hi.2.1 hg' hge') heq
  · intro g g' hg hg' heq
    rw [yozuvNom_yozuvli h0 hlen, yozuvNom_yozuvli h0 hlen] at heq
    by_cases hge : g = e <;> by_cases hge' : g' = e
    · rw [hge, hge']
    · rw [if_pos hge, if_neg hge'] at heq
      exact (hnew g' (nomlangan_yozuvli hi.2.1 hg' hge') heq.symm).elim
    · rw [if_neg hge, if_pos hge'] at heq
      exact (hnew g (nomlangan_yozuvli hi.2.1 hg hge) heq).elim
    · rw [if_neg hge, if_neg hge'] at heq
      exact h.nomYagona g g' (nomlangan_yozuvli hi.2.1 hg hge) (nomlangan_yozuvli hi.2.1 hg' hge') heq
  · intro g hg
    rw [yozuvNom_yozuvli h0 hlen]
    split_ifs with hge
    · exact hlen
    · exact h.nomUzun g (nomlangan_yozuvli hi.2.1 hg hge)

lemma nomlangan_yozuvli_of (nom : List UInt8) (hi : i < 32) (hfree : yozuvInode v.katalog e = 0) (hg : v.Nomlangan g) :
    g ≠ e ∧ (v.yozuvli e i nom).Nomlangan g := by
  have hne : g ≠ e := by
    rintro rfl
    exact hg.2 hfree
  exact ⟨hne, hg.1, by rw [yozuvInode_yozuvli hi, if_neg hne]; exact hg.2⟩

lemma nomlangan_yozuvli_self (he : e < 32) (h0 : 0 < i) (hi : i < 32) : (v.yozuvli e i nom).Nomlangan e := by
  refine ⟨he, ?_⟩
  rw [yozuvInode_yozuvli hi, if_pos rfl]
  exact Nat.ne_of_gt h0

lemma Nomli.yozuvli (hn : ∀ j, v.Band j → j ≠ i → ∃ g, v.Nomlangan g ∧ yozuvInode v.katalog g = j) (he : e < 32)
    (h0 : 0 < i) (hi : i < 32) (hfree : yozuvInode v.katalog e = 0) : (v.yozuvli e i nom).Nomli := by
  intro j hj
  by_cases hji : j = i
  · exact ⟨e, nomlangan_yozuvli_self he h0 hi, by rw [yozuvInode_yozuvli hi, if_pos rfl, hji]⟩
  · obtain ⟨g, hg, hgj⟩ := hn j hj hji
    obtain ⟨hne, hg'⟩ := nomlangan_yozuvli_of nom hi hfree hg
    exact ⟨g, hg', by rwa [yozuvInode_yozuvli hi, if_neg hne]⟩

lemma Saqlangan.yozuvli {nom' manba' : List UInt8} (hs : v.Saqlangan nom' manba') (h0 : 0 ∉ nom)
    (hlen : nom.length < 14) (hi : i < 32) (hfree : yozuvInode v.katalog e = 0) :
    (v.yozuvli e i nom).Saqlangan nom' manba' := by
  obtain ⟨g, hg, hnom, hmazmun⟩ := hs
  obtain ⟨hne, hg'⟩ := nomlangan_yozuvli_of nom hi hfree hg
  refine ⟨g, hg', ?_, ?_⟩
  · rwa [yozuvNom_yozuvli h0 hlen, if_neg hne]
  · rw [yozuvInode_yozuvli hi, if_neg hne]
    exact hmazmun

lemma Mazmun.yozuvli (h : v.Mazmun i manba) (he : e < 32) (hpos : 0 < i) (hi : i < 32) (h0 : 0 ∉ nom)
    (hlen : nom.length < 14) : (v.yozuvli e i nom).Saqlangan nom manba := by
  refine ⟨e, nomlangan_yozuvli_self he hpos hi, ?_, ?_⟩
  · rw [yozuvNom_yozuvli h0 hlen, if_pos rfl]
  · rw [yozuvInode_yozuvli hi, if_pos rfl]
    exact h

lemma yozuvInode_yozuvsiz : yozuvInode (v.yozuvsiz e).katalog g = if g = e then 0 else yozuvInode v.katalog g :=
  yozuvInode_inodeRaqamQoy (by decide)

lemma nomlangan_yozuvsiz : (v.yozuvsiz e).Nomlangan g ↔ v.Nomlangan g ∧ g ≠ e := by
  rw [Nomlangan, yozuvInode_yozuvsiz]
  constructor
  · intro ⟨hg, hne⟩
    split_ifs at hne with hge
    · exact absurd rfl hne
    · exact ⟨⟨hg, hne⟩, hge⟩
  · intro ⟨hg, hge⟩
    rw [if_neg hge]
    exact hg

lemma Butun.yozuvsiz (h : v.Butun) : (v.yozuvsiz e).Butun := by
  have hnom : ∀ g, yozuvNom (v.yozuvsiz e).katalog g = yozuvNom v.katalog g := fun _ => yozuvNom_inodeRaqamQoy
  refine { h with yozuv := ?_, inodeYagona := ?_, nomYagona := ?_, nomUzun := ?_ }
  · intro g hg
    obtain ⟨hg, hge⟩ := nomlangan_yozuvsiz.1 hg
    show v.Band _
    rw [yozuvInode_yozuvsiz, if_neg hge]
    exact h.yozuv g hg
  · intro g g' hg hg' heq
    obtain ⟨hg, hge⟩ := nomlangan_yozuvsiz.1 hg
    obtain ⟨hg', hge'⟩ := nomlangan_yozuvsiz.1 hg'
    rw [yozuvInode_yozuvsiz, yozuvInode_yozuvsiz, if_neg hge, if_neg hge'] at heq
    exact h.inodeYagona g g' hg hg' heq
  · intro g g' hg hg' heq
    rw [hnom, hnom] at heq
    exact h.nomYagona g g' (nomlangan_yozuvsiz.1 hg).1 (nomlangan_yozuvsiz.1 hg').1 heq
  · intro g hg
    rw [hnom]
    exact h.nomUzun g (nomlangan_yozuvsiz.1 hg).1

lemma Saqlangan.yozuvsiz (hs : v.Saqlangan nom manba) (hne : nom ≠ yozuvNom v.katalog e) :
    (v.yozuvsiz e).Saqlangan nom manba := by
  obtain ⟨g, hg, hnom, hmazmun⟩ := hs
  have hge : g ≠ e := by
    rintro rfl
    exact hne hnom.symm
  refine ⟨g, nomlangan_yozuvsiz.2 ⟨hg, hge⟩, ?_, ?_⟩
  · exact yozuvNom_inodeRaqamQoy.trans hnom
  · rw [yozuvInode_yozuvsiz, if_neg hge]
    exact hmazmun

lemma Nomli.ochirish (hn : v.Nomli) :
    ((v.yozuvsiz e).inodeli (yozuvInode v.katalog e) {}).Nomli := by
  intro j hj
  have hji : j ≠ yozuvInode v.katalog e := by
    rintro rfl
    exact hj.2.2 (congrArg Inode.tur inode_inodeli_self)
  obtain ⟨g, hg, hgj⟩ := hn j ((band_inodeli hji).1 hj)
  have hge : g ≠ e := by
    rintro rfl
    exact hji hgj.symm
  refine ⟨g, nomlangan_yozuvsiz.2 ⟨hg, hge⟩, ?_⟩
  show yozuvInode (v.yozuvsiz e).katalog g = j
  rwa [yozuvInode_yozuvsiz, if_neg hge]

lemma Butun.yozuvsiz_ne (h : v.Butun) (he : v.Nomlangan e) (hg : (v.yozuvsiz e).Nomlangan g) :
    yozuvInode (v.yozuvsiz e).katalog g ≠ yozuvInode v.katalog e := by
  obtain ⟨hg, hge⟩ := nomlangan_yozuvsiz.1 hg
  rw [yozuvInode_yozuvsiz, if_neg hge]
  exact fun heq => hge (h.inodeYagona g e hg he heq)

end Katalog

end Korinish

end MyOS.Mfs
