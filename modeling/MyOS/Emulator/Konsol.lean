import MyOS.Emulator.ShinaRuns

/-! The console as its driver sees it: what is read from it, what is printed, and when it interrupts. -/

namespace MyOS.Emulator

open Library Function

section Refill

namespace Uart

variable (u : Uart) (x : Xost)

def navbat : List UInt8 :=
  Bytes.load u.kirish u.bosh (u.oxir - u.bosh) ++ (u.zaxira.getD []).drop u.zaxiraBosh

def stdindan : ℕ :=
  if u.bosh ≠ u.oxir then 0
  else if x.xomRejim = false ∧ u.vaqt = true then
    if u.zaxira = none ∧ u.stdinTugadi = false then (x.kirim.getD []).length else 0
  else if u.stdinTugadi then 0
  else if x.xomRejim = true ∧ ((u.sanoq + 1) % 64 ≠ 0 ∨ x.poll = false) then 0
  else (x.stdin.take kirishHajm).length

structure Soz (xom : Bool) (u : Uart) (kirim : List UInt8) : Prop where
  chegara : u.Chegarada
  rejim : xom = true ∨ u.vaqt = false → u.zaxira = none
  zaxiraBosh : u.zaxira = none → u.zaxiraBosh = 0
  zaxira : u.zaxira ≠ none → u.stdinTugadi = true
  tugadi : u.stdinTugadi = true → kirim = []

/-- Line by line, the driver waits for input and nothing has been printed for a while. -/
def Sokin (vaqt : BitVec 64) : Prop :=
  u.vaqt = true → u.registr 1 &&& uartIerRx ≠ 0 ∧ sukunat ≤ vaqt - u.oxirgiChiqish

structure Yangilandi (xom : Bool) (u : Uart) (kirim : List UInt8) (w : Uart) (kirim' : List UInt8) : Prop where
  soz : w.Soz xom kirim'
  oqim : w.navbat ++ kirim' = u.navbat ++ kirim
  registr : w.registr = u.registr
  txUzilish : w.txUzilish = u.txUzilish
  vaqt : w.vaqt = u.vaqt

end Uart

/-- The host gives the beginning of what there is, and something if there is anything. -/
structure Xost.Beradi (x : Xost) (kirim : List UInt8) : Prop where
  hammasi : x.kirim = some kirim
  boshi : x.stdin <+: kirim
  bor : kirim ≠ [] → x.stdin ≠ []

variable {u : Uart} {x : Xost} {vaqt : BitVec 64} {xom : Bool} {kirim : List UInt8}

lemma load_zero (f : ℕ → UInt8) (a : ℕ) : Bytes.load f a 0 = [] := rfl

lemma navbat_of_eq (h : u.bosh = u.oxir) : u.navbat = (u.zaxira.getD []).drop u.zaxiraBosh := by
  rw [Uart.navbat, h, Nat.sub_self, load_zero, List.nil_append]

lemma navbat_ne_nil (h : u.Chegarada) (hne : u.bosh ≠ u.oxir) : u.navbat ≠ [] := by
  have hle := h.bosh
  intro hnil
  have hload := (List.append_eq_nil_iff.1 hnil).1
  have hlen := congrArg List.length hload
  rw [Bytes.length_load, List.length_nil] at hlen
  omega

lemma load_update {f : ℕ → UInt8} {n : ℕ} {c : UInt8} :
    Bytes.load (update f n c) 0 (n + 1) = Bytes.load f 0 n ++ [c] := by
  have hlast : Bytes.load (update f n c) (0 + n) 1 = [c] := by
    simp [Bytes.load]
  have hrest : Bytes.load (update f n c) 0 n = Bytes.load f 0 n :=
    Bytes.load_congr fun i _ hi => update_of_ne (by omega) _ _
  rw [← Bytes.load_append, hlast, hrest]

lemma qatorOl_navbat {l : List UInt8} {f : ℕ → UInt8} {n : ℕ} (h : n ≤ kirishHajm) :
    ∃ r k, Uart.qatorOl l f n = .ok (r, n + k) ∧ n + k ≤ kirishHajm ∧
      Bytes.load r 0 (n + k) = Bytes.load f 0 n ++ l.take k ∧ (l ≠ [] → n < kirishHajm → 0 < k) := by
  induction l generalizing f n with
  | nil => exact ⟨f, 0, rfl, h, (List.append_nil _).symm, fun hnil => absurd rfl hnil⟩
  | cons c l ih =>
    rw [Uart.qatorOl]
    split
    · rename_i hlt
      rw [Massiv.yoz_of_lt hlt]
      simp only
      split
      · refine ⟨_, 1, rfl, hlt, load_update, fun _ _ => Nat.one_pos⟩
      · obtain ⟨r, k, hr, hle, hload, -⟩ := ih (f := update f n c) hlt
        have hk : n + 1 + k = n + (k + 1) := by omega
        rw [hk] at hr hle hload
        refine ⟨r, k + 1, hr, hle, ?_, fun _ _ => Nat.succ_pos k⟩
        rw [hload, load_update, List.append_assoc]
        rfl
    · rename_i hfull
      exact ⟨f, 0, rfl, h, (List.append_nil _).symm, fun _ hlt => absurd hlt hfull⟩

lemma zaxira_yangilandi (h : u.Soz false kirim) (hb : x.Beradi kirim) (hvaqt : u.vaqt = true)
    (hbosh : u.bosh = u.oxir) (w : Uart)
    (hw : (if u.zaxira = none ∧ u.stdinTugadi = false then u.zaxiraniToldir x else u) = w) :
    Uart.Yangilandi false u kirim w (kirim.drop
      (if u.zaxira = none ∧ u.stdinTugadi = false then (x.kirim.getD []).length else 0)) ∧
      w.stdinTugadi = true ∧ w.bosh = w.oxir ∧ w.oxirgiChiqish = u.oxirgiChiqish := by
  subst hw
  split_ifs with hnone
  · have hrest : kirim.drop ((x.kirim.getD []).length) = [] := by
      rw [hb.hammasi]
      exact List.drop_length
    have hmode : ¬ (false = true ∨ u.vaqt = false) := by
      rw [hvaqt]
      decide
    have hnavbat : (u.zaxiraniToldir x).navbat = kirim := by
      rw [navbat_of_eq (u := u.zaxiraniToldir x) hbosh]
      show (x.kirim.getD []).drop u.zaxiraBosh = kirim
      rw [hb.hammasi, h.zaxiraBosh hnone.1]
      rfl
    rw [hrest]
    refine ⟨⟨⟨⟨h.chegara.bosh, h.chegara.oxir⟩, fun hm => absurd hm hmode, fun hsome => ?_, fun _ => rfl,
      fun _ => rfl⟩, ?_, rfl, rfl, rfl⟩, rfl, hbosh, rfl⟩
    · exact absurd (hb.hammasi.symm.trans hsome) (Option.some_ne_none kirim)
    · rw [hnavbat, navbat_of_eq hbosh, hnone.1, List.append_nil, Option.getD_none, List.drop_nil, List.nil_append]
  · have htugadi : u.stdinTugadi = true := by
      by_contra hno
      exact hno (h.zaxira fun hz => hnone ⟨hz, Bool.not_eq_true _ ▸ hno⟩)
    rw [List.drop_zero]
    exact ⟨⟨h, rfl, rfl, rfl, rfl⟩, htugadi, hbosh, rfl⟩

lemma qator_yangilandi (vaqt : BitVec 64) (h : u.Soz false kirim) (hbosh : u.bosh = u.oxir)
    (hlt : u.zaxiraBosh < (u.zaxira.getD []).length) :
    ∃ r k, Uart.qatorOl ((u.zaxira.getD []).drop u.zaxiraBosh) u.kirish 0 = .ok (r, k) ∧ 0 < k ∧
      Uart.Yangilandi false u kirim { u with
        kirish := r, bosh := 0, oxir := k
        zaxiraBosh := u.zaxiraBosh + k
        oxirgiChiqish := vaqt } kirim := by
  obtain ⟨r, k, hr, hle, hload, hpos⟩ := qatorOl_navbat (l := (u.zaxira.getD []).drop u.zaxiraBosh) (f := u.kirish)
    (Nat.zero_le kirishHajm)
  rw [Nat.zero_add] at hr hle hload
  refine ⟨r, k, hr, hpos (fun hnil => ?_) (by decide),
    ⟨⟨Nat.zero_le k, hle⟩, h.rejim, fun hnone => ?_, h.zaxira, h.tugadi⟩, ?_, rfl, rfl, rfl⟩
  · rw [List.drop_eq_nil_iff] at hnil
    omega
  · have hzaxira : u.zaxira = none := hnone
    rw [hzaxira] at hlt
    exact absurd hlt (Nat.not_lt_zero _)
  · rw [navbat_of_eq hbosh, Uart.navbat]
    dsimp only
    rw [Nat.sub_zero, hload, load_zero, List.nil_append, ← List.drop_drop, List.take_append_drop]

lemma stdinOqi_yangilandi (h : u.Soz x.xomRejim kirim) (hb : x.Beradi kirim) (hbosh : u.bosh = u.oxir)
    (hnone : u.zaxira = none) : Uart.Yangilandi x.xomRejim u kirim (u.stdinOqi x)
      (kirim.drop (x.stdin.take kirishHajm).length) := by
  have hnavbat : u.navbat = [] := by rw [navbat_of_eq hbosh, hnone, Option.getD_none, List.drop_nil]
  rw [Uart.stdinOqi]
  split_ifs with hnil hxom
  · rw [hnil, List.length_nil, List.drop_zero]
    exact ⟨⟨⟨h.chegara.bosh, h.chegara.oxir⟩, h.rejim, h.zaxiraBosh, h.zaxira, h.tugadi⟩, rfl, rfl, rfl, rfl⟩
  · rw [hnil, List.length_nil, List.drop_zero]
    have hempty : kirim = [] := by
      by_contra hne
      rw [List.take_eq_nil_iff] at hnil
      exact hnil.elim (by decide) (hb.bor hne)
    exact ⟨⟨⟨h.chegara.bosh, h.chegara.oxir⟩, h.rejim, h.zaxiraBosh, fun _ => rfl, fun _ => hempty⟩, rfl, rfl, rfl,
      rfl⟩
  · have hprefix : x.stdin.take kirishHajm <+: kirim := (List.take_prefix _ _).trans hb.boshi
    have hlen : (x.stdin.take kirishHajm).length ≤ kirishHajm := List.length_take_le _ _
    refine ⟨⟨⟨Nat.zero_le _, hlen⟩, h.rejim, h.zaxiraBosh, h.zaxira, fun ht => ?_⟩, ?_, rfl, rfl, rfl⟩
    · rw [h.tugadi ht, List.drop_nil]
    · rw [hnavbat, List.nil_append, Uart.navbat]
      dsimp only
      rw [Nat.sub_zero, Bytes.load_store_self rfl, hnone, Option.getD_none, List.drop_nil, List.append_nil]
      exact List.prefix_iff_eq_append.1 hprefix

lemma stdinOqi_bosh (hb : x.Beradi kirim) (heq : (u.stdinOqi x).bosh = (u.stdinOqi x).oxir) : kirim = [] := by
  by_contra hne
  have hsome : x.stdin.take kirishHajm ≠ [] := by
    rw [Ne, List.take_eq_nil_iff]
    exact fun hnil => hnil.elim (by decide) (hb.bor hne)
  rw [Uart.stdinOqi, if_neg hsome] at heq
  exact hsome (List.length_eq_zero_iff.1 heq.symm)

lemma Uart.Yangilandi.refl (h : u.Soz xom kirim) : u.Yangilandi xom kirim u kirim := ⟨h, rfl, rfl, rfl, rfl⟩

lemma navbat_append_ne_nil (h : u.Chegarada) (hne : u.bosh ≠ u.oxir) : u.navbat ++ kirim ≠ [] := fun hnil =>
  navbat_ne_nil h hne (List.append_eq_nil_iff.1 hnil).1

lemma qatorma_qator (vaqt : BitVec 64) (h : u.Soz false kirim) (hbosh : u.bosh = u.oxir)
    (htugadi : u.stdinTugadi = true) (hvaqt : u.vaqt = true) :
    ∃ w, (if (u.zaxira.getD []).length ≤ u.zaxiraBosh ∨ vaqt - u.oxirgiChiqish < sukunat then .ok u
      else
        match u.registrOqi 1 with
        | .error e => .error e
        | .ok ier =>
          if ier &&& uartIerRx = 0 then .ok u
          else
            match Uart.qatorOl ((u.zaxira.getD []).drop u.zaxiraBosh) u.kirish 0 with
            | .error e => .error e
            | .ok (kirish, n) => .ok { u with
                kirish, bosh := 0, oxir := n
                zaxiraBosh := u.zaxiraBosh + n
                oxirgiChiqish := vaqt } : Except Massiv Uart) = .ok w ∧
      Uart.Yangilandi false u kirim w kirim ∧ (u.Sokin vaqt → w.bosh = w.oxir → u.navbat ++ kirim = []) := by
  by_cases hquiet : (u.zaxira.getD []).length ≤ u.zaxiraBosh ∨ vaqt - u.oxirgiChiqish < sukunat
  · rw [if_pos hquiet]
    refine ⟨u, rfl, .refl h, fun hs _ => ?_⟩
    rcases hquiet with hdone | hlate
    · rw [navbat_of_eq hbosh, List.drop_of_length_le hdone, h.tugadi htugadi, List.append_nil]
    · exact absurd hlate (BitVec.not_lt.2 (hs hvaqt).2)
  · rw [if_neg hquiet, registrOqi_eq (show 1 < 8 by decide)]
    dsimp only
    by_cases hrx : u.registr 1 &&& uartIerRx = 0
    · rw [if_pos hrx]
      exact ⟨u, rfl, .refl h, fun hs _ => absurd hrx (hs hvaqt).1⟩
    · obtain ⟨r, k, hr, hk, hline⟩ := qator_yangilandi vaqt h hbosh (by omega)
      rw [if_neg hrx, hr]
      exact ⟨_, rfl, hline, fun _ heq => absurd heq (Nat.ne_of_lt hk)⟩

lemma togridan (h : u.Soz x.xomRejim kirim) (hb : x.Beradi kirim) (hbosh : u.bosh = u.oxir) (hnone : u.zaxira = none) :
    ∃ w, (if u.stdinTugadi then .ok u
      else if x.xomRejim then
        let u := { u with sanoq := u.sanoq + 1 }
        if u.sanoq % 64 ≠ 0 then .ok u
        else if x.poll = false then .ok u
        else .ok (u.stdinOqi x)
      else .ok (u.stdinOqi x) : Except Massiv Uart) = .ok w ∧
      Uart.Yangilandi x.xomRejim u kirim w (kirim.drop
        (if u.stdinTugadi then 0
        else if x.xomRejim = true ∧ ((u.sanoq + 1) % 64 ≠ 0 ∨ x.poll = false) then 0
        else (x.stdin.take kirishHajm).length)) ∧
      (x.xomRejim = false → w.bosh = w.oxir → u.navbat ++ kirim = []) := by
  have hnavbat : u.navbat = [] := by rw [navbat_of_eq hbosh, hnone, Option.getD_none, List.drop_nil]
  by_cases htugadi : u.stdinTugadi = true
  · rw [if_pos htugadi, if_pos htugadi, List.drop_zero]
    refine ⟨u, rfl, .refl h, fun _ _ => ?_⟩
    rw [hnavbat, h.tugadi htugadi, List.nil_append]
  rw [if_neg htugadi, if_neg htugadi]
  by_cases hxom : x.xomRejim = true
  · rw [if_pos hxom]
    dsimp only
    have hv : Uart.Soz x.xomRejim { u with sanoq := u.sanoq + 1 } kirim :=
      ⟨⟨h.chegara.bosh, h.chegara.oxir⟩, h.rejim, h.zaxiraBosh, h.zaxira, h.tugadi⟩
    have hraw : x.xomRejim ≠ false := ne_of_eq_of_ne hxom Bool.noConfusion
    by_cases hturn : (u.sanoq + 1) % 64 ≠ 0
    · rw [if_pos hturn, if_pos ⟨hxom, .inl hturn⟩, List.drop_zero]
      exact ⟨_, rfl, ⟨hv, rfl, rfl, rfl, rfl⟩, fun hno => absurd hno hraw⟩
    · by_cases hpoll : x.poll = false
      · rw [if_neg hturn, if_pos hpoll, if_pos ⟨hxom, .inr hpoll⟩, List.drop_zero]
        exact ⟨_, rfl, ⟨hv, rfl, rfl, rfl, rfl⟩, fun hno => absurd hno hraw⟩
      · rw [if_neg hturn, if_neg hpoll, if_neg fun hno => hno.2.elim hturn hpoll]
        have hy := stdinOqi_yangilandi hv hb hbosh hnone
        exact ⟨_, rfl, ⟨hy.soz, hy.oqim, hy.registr, hy.txUzilish, hy.vaqt⟩, fun hno => absurd hno hraw⟩
  · rw [if_neg hxom, if_neg fun hno => hxom hno.1]
    refine ⟨_, rfl, stdinOqi_yangilandi h hb hbosh hnone, fun _ heq => ?_⟩
    rw [hnavbat, stdinOqi_bosh hb heq, List.nil_append]

lemma kirishniYangila_yangilandi (vaqt : BitVec 64) (h : u.Soz x.xomRejim kirim) (hb : x.Beradi kirim) :
    ∃ w, u.kirishniYangila x vaqt = .ok w ∧
      Uart.Yangilandi x.xomRejim u kirim w (kirim.drop (u.stdindan x)) ∧
      (x.xomRejim = false → u.Sokin vaqt → w.bosh = w.oxir → u.navbat ++ kirim = []) := by
  rw [Uart.kirishniYangila, Uart.stdindan]
  by_cases hbosh : u.bosh = u.oxir
  · rw [if_neg (not_not.2 hbosh), if_neg (not_not.2 hbosh)]
    by_cases hmode : x.xomRejim = false ∧ u.vaqt = true
    · rw [if_pos hmode, if_pos hmode]
      rw [hmode.1] at h ⊢
      dsimp only
      generalize hv : (if u.zaxira = none ∧ u.stdinTugadi = false then u.zaxiraniToldir x else u) = v
      obtain ⟨hy, htugadi, heq, hchiqish⟩ := zaxira_yangilandi h hb hmode.2 hbosh v hv
      generalize kirim.drop (if u.zaxira = none ∧ u.stdinTugadi = false then (x.kirim.getD []).length else 0) = rest
        at hy ⊢
      obtain ⟨w, hw, hline, hempty⟩ := qatorma_qator vaqt hy.soz heq htugadi (hy.vaqt.trans hmode.2)
      refine ⟨w, hw, ⟨hline.soz, hline.oqim.trans hy.oqim, hline.registr.trans hy.registr,
        hline.txUzilish.trans hy.txUzilish, hline.vaqt.trans hy.vaqt⟩, fun _ hs hnil => ?_⟩
      rw [← hy.oqim]
      refine hempty (fun hset => ?_) hnil
      rw [hy.registr, hchiqish]
      exact hs hmode.2
    · rw [if_neg hmode, if_neg hmode]
      have hrejim : x.xomRejim = true ∨ u.vaqt = false := by
        cases hx : x.xomRejim with
        | true => exact .inl rfl
        | false => exact .inr (Bool.eq_false_iff.2 fun hset => hmode ⟨hx, hset⟩)
      obtain ⟨w, hw, hy, hempty⟩ := togridan h hb hbosh (h.rejim hrejim)
      exact ⟨w, hw, hy, fun hxom _ => hempty hxom⟩
  · rw [if_pos hbosh, if_pos hbosh, List.drop_zero]
    exact ⟨u, rfl, .refl h, fun _ _ heq => absurd heq hbosh⟩

end Refill

section Console

def past (w : Word) : UInt8 := UInt8.ofBitVec (w.setWidth 8)

def uartChiqish (siljish qiymat : Word) : List UInt8 := if siljish = 0 then [past qiymat] else []

def Uart.oqishda (u : Uart) (x : Xost) (siljish : Word) : ℕ :=
  if siljish = 0 ∨ siljish = 2 ∨ siljish = 5 then u.stdindan x else 0

def Uart.uzilishda (u : Uart) (x : Xost) : ℕ :=
  if u.registr 1 &&& uartIerRx ≠ 0 ∧ ¬ (u.registr 1 &&& uartIerTx ≠ 0 ∧ u.txUzilish = true) then u.stdindan x else 0

inductive Chaqiruv
  | oqi (siljish : Word)
  | yoz (siljish qiymat : Word)
  | uzilish

structure Sharoit where
  vaqt : BitVec 64
  bolak : ℕ
  poll : Bool
  musbat : 0 < bolak

/-- The console with what it has not read from the standard input and what it has printed; then what the driver has
written, what it has got from offset 0 when `LSR` said that there is a byte, and whether the transmitter has become
ready since a read of `IIR` said so. -/
structure Konsol where
  uart : Uart
  kirim : List UInt8
  chiqish : List UInt8
  yozuvlar : List (Word × Word)
  olingan : List UInt8
  tayyor : Bool

namespace Konsol

variable (xom : Bool) (s : Konsol)

def xost (h : Sharoit) : Xost :=
  { xomRejim := xom, poll := h.poll, stdin := s.kirim.take h.bolak, kirim := some s.kirim }

def dr (h : Sharoit) : Bool :=
  match s.uart.uartOqi (s.xost xom h) h.vaqt 5 with
  | .ok (_, v) => v &&& uartLsrDr ≠ 0
  | .error _ => false

def keyin : Chaqiruv → Sharoit → Except Massiv Konsol
  | .oqi siljish, h =>
    match s.uart.uartOqi (s.xost xom h) h.vaqt siljish with
    | .error e => .error e
    | .ok (u, v) => .ok { s with
        uart := u
        kirim := s.kirim.drop (s.uart.oqishda (s.xost xom h) siljish)
        olingan := if siljish = 0 ∧ s.dr xom h = true then s.olingan ++ [past v] else s.olingan
        tayyor := if siljish = 2 ∧ v = 2 then false else s.tayyor }
  | .yoz siljish qiymat, h =>
    match s.uart.uartYoz h.vaqt siljish qiymat with
    | .error e => .error e
    | .ok u => .ok { s with
        uart := u
        chiqish := s.chiqish ++ uartChiqish siljish qiymat
        yozuvlar := s.yozuvlar ++ [(siljish, qiymat)]
        tayyor := if siljish = 0 then true else s.tayyor }
  | .uzilish, h =>
    match s.uart.uartUzilish (s.xost xom h) h.vaqt with
    | .error e => .error e
    | .ok (u, _) => .ok { s with uart := u, kirim := s.kirim.drop (s.uart.uzilishda (s.xost xom h)) }

end Konsol

def Chaqiruv.Joiz : Chaqiruv → Prop
  | .oqi siljish => siljish < 8
  | .yoz siljish _ => siljish < 8
  | .uzilish => True

instance : DecidablePred Chaqiruv.Joiz
  | .oqi siljish => inferInstanceAs (Decidable (siljish < 8))
  | .yoz siljish _ => inferInstanceAs (Decidable (siljish < 8))
  | .uzilish => .isTrue trivial

def konsol (xom vaqt : Bool) (kirim : List UInt8) : System Konsol (Chaqiruv × Sharoit) where
  init s := s = ⟨{ vaqt := vaqt }, kirim, [], [], [], true⟩
  step s a t := a.1.Joiz ∧ s.keyin xom a.1 a.2 = .ok t

def ier (yozuvlar : List (Word × Word)) : Word :=
  ((yozuvlar.filter fun p => p.1 = 1).getLast?.map Prod.snd).getD 0

end Console

section Calls

variable {u w : Uart} {x : Xost} {vaqt : BitVec 64} {siljish q v : Word} {xom : Bool} {kirim : List UInt8}

lemma past_bayt (b : UInt8) : past (bayt b) = b := by
  have hb : (b.toBitVec.setWidth 32).setWidth 8 = b.toBitVec := by
    rw [BitVec.setWidth_setWidth_of_le b.toBitVec (by decide)]
    exact BitVec.setWidth_eq b.toBitVec
  rw [past, bayt, hb]

lemma uartOqi_rbr (hw : u.kirishniYangila x vaqt = .ok w) (hc : w.Chegarada) : u.uartOqi x vaqt 0 =
    .ok (if w.bosh = w.oxir then (w, 0) else ({ w with bosh := w.bosh + 1 }, bayt (w.kirish w.bosh))) := by
  rw [Uart.uartOqi, if_pos rfl, hw]
  dsimp only
  split_ifs with heq
  · rfl
  · rw [Massiv.oqi_of_lt ((lt_of_le_of_ne hc.bosh heq).trans_le hc.oxir)]

lemma uartOqi_lsr (hw : u.kirishniYangila x vaqt = .ok w) : u.uartOqi x vaqt 5 =
    .ok (w, uartLsrThre ||| uartLsrTemt ||| if w.bosh ≠ w.oxir then uartLsrDr else 0) := by
  rw [Uart.uartOqi, if_neg (by decide), if_neg (by decide), if_pos rfl, hw]

lemma uartOqi_iir (hw : u.kirishniYangila x vaqt = .ok w) : u.uartOqi x vaqt 2 =
    .ok (if w.registr 1 &&& uartIerRx ≠ 0 ∧ w.bosh ≠ w.oxir then (w, 4)
    else if w.registr 1 &&& uartIerTx ≠ 0 ∧ w.txUzilish = true then ({ w with txUzilish := false }, 2)
    else (w, 1)) := by
  rw [Uart.uartOqi, if_neg (by decide), if_pos rfl, hw]
  dsimp only
  rw [registrOqi_eq (show 1 < 8 by decide)]
  dsimp only
  split_ifs
  · rfl
  · rfl
  · rfl

lemma uartOqi_registr (h0 : siljish ≠ 0) (h2 : siljish ≠ 2) (h5 : siljish ≠ 5) :
    u.uartOqi x vaqt siljish = .ok (u, u.registr (siljish &&& 7).toNat) := by
  rw [Uart.uartOqi, if_neg h0, if_neg h2, if_neg h5, registrOqi_eq (and_seven_lt siljish)]

lemma navbat_cons (h : w.Chegarada) (hne : w.bosh ≠ w.oxir) :
    w.navbat = w.kirish w.bosh :: ({ w with bosh := w.bosh + 1 } : Uart).navbat := by
  have hlen : w.oxir - w.bosh = 1 + (w.oxir - (w.bosh + 1)) := by
    have hle := h.bosh
    omega
  have hone : Bytes.load w.kirish w.bosh 1 = [w.kirish w.bosh] := by simp [Bytes.load]
  rw [Uart.navbat, hlen, ← Bytes.load_append, hone]
  rfl

lemma xost_beradi (s : Konsol) (h : Sharoit) : (s.xost xom h).Beradi s.kirim where
  hammasi := rfl
  boshi := List.take_prefix _ _
  bor hne hnil := (List.take_eq_nil_iff.1 hnil).elim (Nat.ne_of_gt h.musbat) hne

end Calls

namespace Konsol

structure Inv (xom : Bool) (kirim : List UInt8) (s : Konsol) : Prop where
  soz : s.uart.Soz xom s.kirim
  oqim : s.olingan ++ (s.uart.navbat ++ s.kirim) = kirim
  chiqish : s.chiqish = (s.yozuvlar.filter fun p => p.1 = 0).map fun p => past p.2
  ier : s.uart.registr 1 = Emulator.ier s.yozuvlar &&& 0xFF
  tayyor : s.tayyor = true → s.uart.registr 1 &&& uartIerTx ≠ 0 → s.uart.txUzilish = true

variable {xom : Bool} {kirim : List UInt8} {s t : Konsol} {h : Sharoit}

lemma yangilandi (hs : s.Inv xom kirim) (h : Sharoit) : ∃ w, s.uart.kirishniYangila (s.xost xom h) h.vaqt = .ok w ∧
    Uart.Yangilandi xom s.uart s.kirim w (s.kirim.drop (s.uart.stdindan (s.xost xom h))) ∧
    (xom = false → s.uart.Sokin h.vaqt → w.bosh = w.oxir → s.uart.navbat ++ s.kirim = []) :=
  kirishniYangila_yangilandi h.vaqt hs.soz (xost_beradi s h)

lemma dr_eq {w : Uart} (hw : s.uart.kirishniYangila (s.xost xom h) h.vaqt = .ok w) :
    s.dr xom h = decide (w.bosh ≠ w.oxir) := by
  rw [dr, uartOqi_lsr hw]
  dsimp only
  split_ifs with hne
  · rw [decide_eq_true hne]
    decide
  · rw [decide_eq_false hne]
    decide

lemma Inv.yangila (hs : s.Inv xom kirim) {w : Uart} {rest : List UInt8}
    (hy : Uart.Yangilandi xom s.uart s.kirim w rest) : ({ s with uart := w, kirim := rest } : Konsol).Inv xom kirim where
  soz := hy.soz
  oqim := by rw [hy.oqim, hs.oqim]
  chiqish := hs.chiqish
  ier := by rw [hy.registr, hs.ier]
  tayyor := by
    rw [hy.registr, hy.txUzilish]
    exact hs.tayyor

lemma Inv.rbr (hs : s.Inv xom kirim) (hne : s.uart.bosh ≠ s.uart.oxir) :
    ({ s with
      uart := { s.uart with bosh := s.uart.bosh + 1 }
      olingan := s.olingan ++ [s.uart.kirish s.uart.bosh] } : Konsol).Inv xom kirim := by
  have hc := hs.soz.chegara
  have hlt : s.uart.bosh < s.uart.oxir := lt_of_le_of_ne hc.bosh hne
  refine ⟨⟨⟨hlt, hc.oxir⟩, hs.soz.rejim, hs.soz.zaxiraBosh, hs.soz.zaxira, hs.soz.tugadi⟩, ?_, hs.chiqish, hs.ier,
    hs.tayyor⟩
  have hoqim := hs.oqim
  rw [navbat_cons hc hne] at hoqim
  rw [List.append_assoc]
  exact hoqim

lemma Inv.iir (hs : s.Inv xom kirim) :
    ({ s with uart := { s.uart with txUzilish := false }, tayyor := false } : Konsol).Inv xom kirim :=
  ⟨⟨⟨hs.soz.chegara.bosh, hs.soz.chegara.oxir⟩, hs.soz.rejim, hs.soz.zaxiraBosh, hs.soz.zaxira, hs.soz.tugadi⟩,
    hs.oqim, hs.chiqish, hs.ier, fun hno => absurd hno Bool.false_ne_true⟩

lemma keyin_oqi_eq {siljish v : Word} {u : Uart} (hu : s.uart.uartOqi (s.xost xom h) h.vaqt siljish = .ok (u, v)) :
    s.keyin xom (.oqi siljish) h = .ok { s with
      uart := u
      kirim := s.kirim.drop (s.uart.oqishda (s.xost xom h) siljish)
      olingan := if siljish = 0 ∧ s.dr xom h = true then s.olingan ++ [past v] else s.olingan
      tayyor := if siljish = 2 ∧ v = 2 then false else s.tayyor } := by
  rw [keyin, hu]

lemma keyin_rbr (hs : s.Inv xom kirim) (h : Sharoit) : ∃ t, s.keyin xom (.oqi 0) h = .ok t ∧ t.Inv xom kirim := by
  obtain ⟨w, hw, hy, -⟩ := yangilandi hs h
  have hinv := hs.yangila hy
  have hread := uartOqi_rbr hw hy.soz.chegara
  have hiir : ∀ v : Word, ¬ ((0 : Word) = 2 ∧ v = 2) := fun v hno => absurd hno.1 (by decide)
  have hrest : s.uart.oqishda (s.xost xom h) 0 = s.uart.stdindan (s.xost xom h) := if_pos (.inl rfl)
  by_cases heq : w.bosh = w.oxir
  · rw [if_pos heq] at hread
    have hdr : ¬ ((0 : Word) = 0 ∧ s.dr xom h = true) := by
      rw [dr_eq hw, decide_eq_true_eq]
      exact fun hno => hno.2 heq
    refine ⟨_, keyin_oqi_eq hread, ?_⟩
    rw [if_neg hdr, if_neg (hiir 0), hrest]
    exact hinv
  · rw [if_neg heq] at hread
    have hdr : (0 : Word) = 0 ∧ s.dr xom h = true := by
      rw [dr_eq hw, decide_eq_true_eq]
      exact ⟨rfl, heq⟩
    refine ⟨_, keyin_oqi_eq hread, ?_⟩
    rw [if_pos hdr, if_neg (hiir _), hrest, past_bayt]
    exact hinv.rbr heq

lemma keyin_iir (hs : s.Inv xom kirim) (h : Sharoit) : ∃ t, s.keyin xom (.oqi 2) h = .ok t ∧ t.Inv xom kirim := by
  obtain ⟨w, hw, hy, -⟩ := yangilandi hs h
  have hinv := hs.yangila hy
  have hread := uartOqi_iir hw
  have hrbr : ¬ ((2 : Word) = 0 ∧ s.dr xom h = true) := fun hno => absurd hno.1 (by decide)
  have hrest : s.uart.oqishda (s.xost xom h) 2 = s.uart.stdindan (s.xost xom h) := if_pos (.inr (.inl rfl))
  by_cases hrx : w.registr 1 &&& uartIerRx ≠ 0 ∧ w.bosh ≠ w.oxir
  · rw [if_pos hrx] at hread
    refine ⟨_, keyin_oqi_eq hread, ?_⟩
    rw [if_neg hrbr, if_neg (by decide), hrest]
    exact hinv
  rw [if_neg hrx] at hread
  by_cases htx : w.registr 1 &&& uartIerTx ≠ 0 ∧ w.txUzilish = true
  · rw [if_pos htx] at hread
    refine ⟨_, keyin_oqi_eq hread, ?_⟩
    rw [if_neg hrbr, if_pos ⟨rfl, rfl⟩, hrest]
    exact hinv.iir
  · rw [if_neg htx] at hread
    refine ⟨_, keyin_oqi_eq hread, ?_⟩
    rw [if_neg hrbr, if_neg (by decide), hrest]
    exact hinv

lemma keyin_oqi (hs : s.Inv xom kirim) (siljish : Word) (h : Sharoit) :
    ∃ t, s.keyin xom (.oqi siljish) h = .ok t ∧ t.Inv xom kirim := by
  by_cases h0 : siljish = 0
  · rw [h0]
    exact keyin_rbr hs h
  by_cases h2 : siljish = 2
  · rw [h2]
    exact keyin_iir hs h
  have hrbr : ¬ (siljish = 0 ∧ s.dr xom h = true) := fun hno => h0 hno.1
  have hiir : ∀ v : Word, ¬ (siljish = 2 ∧ v = 2) := fun v hno => h2 hno.1
  by_cases h5 : siljish = 5
  · obtain ⟨w, hw, hy, -⟩ := yangilandi hs h
    have hread := uartOqi_lsr hw
    have hrest : s.uart.oqishda (s.xost xom h) siljish = s.uart.stdindan (s.xost xom h) := if_pos (.inr (.inr h5))
    rw [← h5] at hread
    refine ⟨_, keyin_oqi_eq hread, ?_⟩
    rw [if_neg hrbr, if_neg (hiir _), hrest]
    exact hs.yangila hy
  · have hrest : s.uart.oqishda (s.xost xom h) siljish = 0 :=
      if_neg fun hno => hno.elim h0 fun hno => hno.elim h2 h5
    refine ⟨_, keyin_oqi_eq (uartOqi_registr h0 h2 h5), ?_⟩
    rw [if_neg hrbr, if_neg (hiir _), hrest, List.drop_zero]
    exact hs

lemma uzilish_eq (hs : s.Inv xom kirim) (h : Sharoit) : ∃ w b,
    s.uart.uartUzilish (s.xost xom h) h.vaqt = .ok (w, b) ∧
      Uart.Yangilandi xom s.uart s.kirim w (s.kirim.drop (s.uart.uzilishda (s.xost xom h))) ∧
      (s.uart.registr 1 &&& uartIerRx ≠ 0 ∧ s.uart.bosh ≠ s.uart.oxir ∨
        s.uart.registr 1 &&& uartIerTx ≠ 0 ∧ s.uart.txUzilish = true → b = true) := by
  obtain ⟨w, hw, hy, -⟩ := yangilandi hs h
  rw [Uart.uartUzilish, Uart.uzilishda, registrOqi_eq (show 1 < 8 by decide)]
  dsimp only
  by_cases hrx : s.uart.registr 1 &&& uartIerRx ≠ 0 ∧ s.uart.bosh ≠ s.uart.oxir
  · have hnone : s.uart.stdindan (s.xost xom h) = 0 := if_pos hrx.2
    rw [if_pos hrx, hnone, ite_self, List.drop_zero]
    exact ⟨_, true, rfl, .refl hs.soz, fun _ => rfl⟩
  rw [if_neg hrx]
  by_cases htx : s.uart.registr 1 &&& uartIerTx ≠ 0 ∧ s.uart.txUzilish = true
  · rw [if_pos htx, if_neg fun hno => hno.2 htx, List.drop_zero]
    exact ⟨_, true, rfl, .refl hs.soz, fun _ => rfl⟩
  rw [if_neg htx]
  by_cases hrefill : s.uart.registr 1 &&& uartIerRx ≠ 0
  · rw [if_pos hrefill, if_pos ⟨hrefill, htx⟩, hw]
    exact ⟨w, _, rfl, hy, fun hno => absurd hno (not_or.2 ⟨hrx, htx⟩)⟩
  · rw [if_neg hrefill, if_neg fun hno => hrefill hno.1, List.drop_zero]
    exact ⟨_, false, rfl, .refl hs.soz, fun hno => absurd hno (not_or.2 ⟨hrx, htx⟩)⟩

lemma keyin_uzilish (hs : s.Inv xom kirim) (h : Sharoit) :
    ∃ t, s.keyin xom .uzilish h = .ok t ∧ t.Inv xom kirim := by
  obtain ⟨w, b, hu, hy, -⟩ := uzilish_eq hs h
  rw [keyin, hu]
  exact ⟨_, rfl, hs.yangila hy⟩

lemma ier_append (l : List (Word × Word)) (siljish q : Word) :
    Emulator.ier (l ++ [(siljish, q)]) = if siljish = 1 then q else Emulator.ier l := by
  rw [Emulator.ier, List.filter_append, Emulator.ier]
  by_cases h : siljish = 1
  · have hone : [(siljish, q)].filter (fun p => decide (p.1 = 1)) = [(siljish, q)] :=
      List.filter_cons_of_pos (decide_eq_true h)
    rw [hone, List.getLast?_concat, if_pos h]
    rfl
  · have hnone : [(siljish, q)].filter (fun p => decide (p.1 = 1)) = [] :=
      List.filter_cons_of_neg (by rwa [decide_eq_true_eq])
    rw [hnone, List.append_nil, if_neg h]

lemma uartChiqish_append (l : List (Word × Word)) (siljish q : Word) :
    ((l.filter fun p => p.1 = 0).map fun p => past p.2) ++ uartChiqish siljish q =
      ((l ++ [(siljish, q)]).filter fun p => p.1 = 0).map fun p => past p.2 := by
  rw [List.filter_append, List.map_append, uartChiqish]
  by_cases h : siljish = 0
  · have hone : [(siljish, q)].filter (fun p => decide (p.1 = 0)) = [(siljish, q)] :=
      List.filter_cons_of_pos (decide_eq_true h)
    rw [hone, if_pos h]
    rfl
  · have hnone : [(siljish, q)].filter (fun p => decide (p.1 = 0)) = [] :=
      List.filter_cons_of_neg (by rwa [decide_eq_true_eq])
    rw [hnone, if_neg h]
    rfl

lemma keyin_thr (hs : s.Inv xom kirim) (q : Word) (h : Sharoit) :
    ∃ t, s.keyin xom (.yoz 0 q) h = .ok t ∧ t.Inv xom kirim := by
  rw [keyin, Uart.uartYoz, if_pos rfl]
  refine ⟨_, rfl, ⟨⟨hs.soz.chegara.bosh, hs.soz.chegara.oxir⟩, hs.soz.rejim, hs.soz.zaxiraBosh, hs.soz.zaxira,
    hs.soz.tugadi⟩, hs.oqim, ?_, ?_, fun _ _ => rfl⟩
  · rw [hs.chiqish]
    exact uartChiqish_append _ _ _
  · rw [ier_append, if_neg (show (0 : Word) ≠ 1 by decide)]
    exact hs.ier

lemma and_tx (q : Word) : q &&& 0xFF &&& uartIerTx = q &&& uartIerTx := by
  rw [BitVec.and_assoc]
  rfl

lemma keyin_yoz (hs : s.Inv xom kirim) {siljish : Word} (hlt : siljish < 8) (q : Word) (h : Sharoit) :
    ∃ t, s.keyin xom (.yoz siljish q) h = .ok t ∧ t.Inv xom kirim := by
  by_cases h0 : siljish = 0
  · rw [h0]
    exact keyin_thr hs q h
  have hnat : siljish.toNat < 8 := BitVec.lt_def.1 hlt
  have hindex : siljish &&& 7 = siljish := by
    apply BitVec.eq_of_toNat_eq
    rw [BitVec.toNat_and]
    exact (Nat.and_two_pow_sub_one_eq_mod _ 3).trans (Nat.mod_eq_of_lt hnat)
  have hregistr : update s.uart.registr siljish.toNat (q &&& 0xFF) 1 =
      if siljish = 1 then q &&& 0xFF else s.uart.registr 1 := by
    by_cases h1 : siljish = 1
    · subst h1
      exact update_self _ _ _
    · rw [if_neg h1]
      have hne : (1 : Word).toNat ≠ siljish.toNat := fun heq => h1 (BitVec.eq_of_toNat_eq heq.symm)
      exact update_of_ne hne _ _
  rw [keyin, Uart.uartYoz, if_neg h0, registrOqi_eq (show 1 < 8 by decide), hindex]
  dsimp only
  rw [Massiv.yoz_of_lt hnat]
  refine ⟨_, rfl, ⟨⟨hs.soz.chegara.bosh, hs.soz.chegara.oxir⟩, hs.soz.rejim, hs.soz.zaxiraBosh, hs.soz.zaxira,
    hs.soz.tugadi⟩, hs.oqim, ?_, ?_, ?_⟩
  · rw [hs.chiqish]
    exact uartChiqish_append _ _ _
  · dsimp only
    rw [hregistr, ier_append, hs.ier]
    split_ifs
    · rfl
    · rfl
  · dsimp only
    rw [if_neg h0, hregistr]
    intro htayyor hon
    by_cases h1 : siljish = 1
    · rw [if_pos h1, and_tx] at hon
      by_cases hoff : s.uart.registr 1 &&& uartIerTx = 0
      · rw [if_pos ⟨h1, hon, hoff⟩]
      · rw [if_neg fun hno => hoff hno.2.2]
        exact hs.tayyor htayyor hoff
    · rw [if_neg h1] at hon
      rw [if_neg fun hno => h1 hno.1]
      exact hs.tayyor htayyor hon

lemma keyin_ok (hs : s.Inv xom kirim) {a : Chaqiruv} (ha : a.Joiz) (h : Sharoit) :
    ∃ t, s.keyin xom a h = .ok t ∧ t.Inv xom kirim := by
  cases a with
  | oqi siljish => exact keyin_oqi hs siljish h
  | yoz siljish q => exact keyin_yoz hs ha q h
  | uzilish => exact keyin_uzilish hs h

lemma inv_init (xom vaqt : Bool) (kirim : List UInt8) :
    (⟨{ vaqt := vaqt }, kirim, [], [], [], true⟩ : Konsol).Inv xom kirim where
  soz := ⟨⟨le_rfl, Nat.zero_le _⟩, fun _ => rfl, fun _ => rfl, fun hno => absurd rfl hno, fun hno => Bool.noConfusion hno⟩
  oqim := rfl
  chiqish := rfl
  ier := show (0 : Word) = Emulator.ier [] &&& 0xFF by decide
  tayyor _ hno := absurd (show (0 : Word) &&& uartIerTx = 0 by decide) hno

lemma reachable_inv {vaqt : Bool} (h : (konsol xom vaqt kirim).Reachable s) : s.Inv xom kirim := by
  refine h.invariant (I := Konsol.Inv xom kirim) ?_ fun s a t hs hst => ?_
  · rintro s rfl
    exact inv_init xom vaqt kirim
  · obtain ⟨t', ht, hinv⟩ := keyin_ok hs hst.1 a.2
    rw [Except.ok.inj (hst.2.symm.trans ht)]
    exact hinv

def Kutmoqda (s : Konsol) : Prop :=
  Emulator.ier s.yozuvlar &&& uartIerRx ≠ 0 ∧ s.uart.bosh ≠ s.uart.oxir ∨
    Emulator.ier s.yozuvlar &&& uartIerTx ≠ 0 ∧ s.tayyor = true

lemma and_rx (q : Word) : q &&& 0xFF &&& uartIerRx = q &&& uartIerRx := by
  rw [BitVec.and_assoc]
  rfl

lemma Inv.dr_iff (hs : s.Inv xom kirim) (hxom : xom = false) (hsokin : s.uart.Sokin h.vaqt) :
    s.dr xom h = false ↔ s.olingan = kirim := by
  obtain ⟨w, hw, hy, hempty⟩ := yangilandi hs h
  have hoqim := hs.oqim
  have hall : s.olingan = kirim ↔ s.uart.navbat ++ s.kirim = [] := by
    rw [← hoqim]
    exact List.self_eq_append_right
  rw [dr_eq hw, hall, decide_eq_false_iff_not, not_not]
  constructor
  · exact hempty hxom hsokin
  · intro hnil
    by_contra hne
    exact navbat_append_ne_nil hy.soz.chegara hne (hy.oqim.trans hnil)

theorem konsol_togri {vaqt : Bool} (h : (konsol xom vaqt kirim).Reachable s) :
    s.olingan ++ (s.uart.navbat ++ s.kirim) = kirim ∧
      (∀ m : Sharoit, xom = false → s.uart.Sokin m.vaqt → (s.dr xom m = false ↔ s.olingan = kirim)) ∧
      (∀ m : Sharoit, ∃ w b, s.uart.uartUzilish (s.xost xom m) m.vaqt = .ok (w, b) ∧ (s.Kutmoqda → b = true)) ∧
      s.chiqish = (s.yozuvlar.filter fun p => p.1 = 0).map fun p => past p.2 := by
  have hs := reachable_inv h
  refine ⟨hs.oqim, fun m hxom hsokin => hs.dr_iff hxom hsokin, fun m => ?_, hs.chiqish⟩
  obtain ⟨w, b, hu, -, hline⟩ := uzilish_eq hs m
  refine ⟨w, b, hu, fun hwait => hline ?_⟩
  rw [hs.ier, and_rx, and_tx]
  rcases hwait with hrx | ⟨htx, htayyor⟩
  · exact .inl hrx
  · refine .inr ⟨htx, hs.tayyor htayyor ?_⟩
    rwa [hs.ier, and_tx]

def boshSharoit : Sharoit := { vaqt := 0, bolak := 1, poll := false, musbat := Nat.one_pos }

theorem konsol_togri_bir : ∃ s, (konsol false false [72, 105]).Reachable s ∧ s.olingan = [72] ∧
    s.uart.navbat ++ s.kirim = [105] := by
  have hrun : ∃ s, (konsol false false [72, 105]).Reachable s ∧ s.olingan = [72] :=
    ⟨_, .step (.oqi 0, boshSharoit) (.step (.oqi 5, boshSharoit) (.init rfl) ⟨by decide, rfl⟩) ⟨by decide, rfl⟩,
      by decide⟩
  obtain ⟨s, hs, holingan⟩ := hrun
  have hoqim := (konsol_togri hs).1
  rw [holingan] at hoqim
  exact ⟨s, hs, holingan, (List.cons.inj hoqim).2⟩

/-- The bytes that go to the transmitter of a UART with `DLAB`, which is bit 7 of register 3. -/
def thrBaytlari : Bool → List (Word × Word) → List UInt8
  | _, [] => []
  | dlab, (siljish, q) :: l =>
    if siljish = 0 then if dlab then thrBaytlari dlab l else past q :: thrBaytlari dlab l
    else thrBaytlari (if siljish = 3 then q &&& 0x80 ≠ 0 else dlab) l

theorem boluvchi_chiqadi : ∃ s, (konsol false false []).Reachable s ∧
    s.yozuvlar = [(3, 0x83), (0, 3), (1, 0), (3, 3)] ∧ thrBaytlari false s.yozuvlar = [] ∧ s.chiqish = [3] :=
  ⟨_, .step (.yoz 3 3, boshSharoit) (.step (.yoz 1 0, boshSharoit) (.step (.yoz 0 3, boshSharoit)
    (.step (.yoz 3 0x83, boshSharoit) (.init rfl) ⟨by decide, rfl⟩) ⟨by decide, rfl⟩) ⟨by decide, rfl⟩)
    ⟨by decide, rfl⟩, rfl, by decide, by decide⟩

end Konsol

end MyOS.Emulator
