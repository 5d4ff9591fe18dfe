import MyOS.Kadrlar.Xodim

/-! The store of the employees, and its loading from text files. -/

namespace MyOS.Kadrlar

def qatorUz : ℕ := 256
def tanaffusDaq : ℤ := 60
def normaKunDaq : Int32 := 480

/-- `struct ombor`; the array has room for `sigim` employees, and no two of them have one `id`. -/
structure Ombor where
  a : List Xodim
  sigim : ℕ
  joy : a.length ≤ sigim
  yagona : (a.map Xodim.id).Nodup

def omborYarat : Ombor := ⟨[], 0, le_rfl, List.nodup_nil⟩

lemma yagona_qosh {a : List Xodim} {x : Xodim} (h : (a.map Xodim.id).Nodup) (hx : ¬ ∃ y ∈ a, y.id = x.id) :
    ((a ++ [x]).map Xodim.id).Nodup := by
  rw [List.map_append, List.map_cons, List.map_nil]
  refine List.Nodup.append h (List.nodup_singleton _) fun i hi hix => hx ?_
  rw [List.mem_singleton] at hix
  obtain ⟨y, hy, hyi⟩ := List.mem_map.1 hi
  exact ⟨y, hy, hyi.trans hix⟩

def yangiSigim (sigim : ℕ) : ℕ := if sigim ≠ 0 then sigim * 2 else 4

lemma lt_yangiSigim (sigim : ℕ) : sigim < yangiSigim sigim := by
  rw [yangiSigim]
  split_ifs <;> omega

def omborQosh (realloc : Bool) (o : Ombor) (x : Xodim) : Ombor × ℤ :=
  if hid : ∃ y ∈ o.a, y.id = x.id then (o, -2)
  else if hs : o.a.length = o.sigim then
    if realloc then
      (⟨o.a ++ [x], yangiSigim o.sigim,
        by rw [List.length_append, List.length_singleton, hs]; exact lt_yangiSigim o.sigim,
        yagona_qosh o.yagona hid⟩, 0)
    else (o, -1)
  else
    (⟨o.a ++ [x], o.sigim, by rw [List.length_append, List.length_singleton]; have := o.joy; omega,
      yagona_qosh o.yagona hid⟩, 0)

def omborTop (o : Ombor) (id : ℤ) : Option Xodim := o.a.find? fun x => x.id.toInt = id

/-- The employee that `ombor_top_yoz` finds, changed through the pointer but for its `id`. -/
def omborYangila (o : Ombor) (id : ℤ) (f : Xodim → Xodim) (hf : ∀ x, (f x).id = x.id) : Ombor where
  a := o.a.map fun x => if x.id.toInt = id then f x else x
  sigim := o.sigim
  joy := by rw [List.length_map]; exact o.joy
  yagona := by
    have hid : Xodim.id ∘ (fun x => if x.id.toInt = id then f x else x) = Xodim.id := by
      funext x
      rw [Function.comp_apply]
      split_ifs
      · exact hf x
      · rfl
    rw [List.map_map, hid]
    exact o.yagona

section Text

def isspace (c : UInt8) : Bool := c = 32 || 9 ≤ c && c ≤ 13
def isdigit (c : UInt8) : Bool := 48 ≤ c && c ≤ 57

/-- `strtoll` in base ten: its result, what is left behind it, and whether it is out of range. -/
def strtoll (s : List UInt8) : ℤ × List UInt8 × Bool :=
  let p := s.dropWhile isspace
  let manfiy := p.head? = some 45
  let p := if manfiy ∨ p.head? = some 43 then p.tail else p
  let son : ℕ := (p.takeWhile isdigit).foldl (fun v c => 10 * v + (c - 48).toNat) 0
  let v : ℤ := if manfiy then -son else son
  if p.takeWhile isdigit = [] then (0, s, false)
  else if v < -2 ^ 63 then (-2 ^ 63, p.dropWhile isdigit, true)
  else if 2 ^ 63 ≤ v then (2 ^ 63 - 1, p.dropWhile isdigit, true)
  else (v, p.dropWhile isdigit, false)

def sonOqi (s : List UInt8) : Option ℤ :=
  let (v, oxir, erange) := strtoll s
  if oxir.length = s.length ∨ oxir ≠ [] ∨ erange then none else some v

def oraliq (s : List UInt8) (lo hi : ℤ) (sabab : String) : Except String ℤ :=
  match sonOqi s with
  | some v => if v < lo ∨ hi < v then .error sabab else .ok v
  | none => .error sabab

def ajratuvchi (c : UInt8) : Bool := c = 32 || c = 9 || c = 13 || c = 10

def bol (qator : List UInt8) (maks : ℕ) : ℕ × List (List UInt8) :=
  let soz := (qator.splitOnP ajratuvchi).filter (· ≠ [])
  if maks < soz.length then (maks + 1, soz.take maks) else (soz.length, soz)

def bayroqHarfi (natija c : UInt8) : Option UInt8 :=
  if harflar.idxOf c = harflar.length then none else some (natija ||| 1 <<< UInt8.ofNat (harflar.idxOf c))

def bayroqOqi (matn : List UInt8) : Option UInt8 := matn.foldlM bayroqHarfi 0

def xodimTahlil (qator : List UInt8) : Except String Xodim :=
  if qatorUz ≤ qator.length then .error "qator juda uzun"
  else
    let (nsoz, soz) := bol qator 5
    if nsoz ≠ 4 ∧ nsoz ≠ 5 then .error "maydonlar soni 4 yoki 5 bo'lishi kerak"
    else do
      let id ← oraliq (soz.getD 0 []) 1000 9999 "ID 1000..9999 oralig'ida son emas"
      if ismUz ≤ (soz.getD 1 []).length then .error "ism juda uzun"
      else do
        let toifa ← oraliq (soz.getD 2 []) 1 tSoni "toifa 1..4 oralig'ida son emas"
        let tarif ← oraliq (soz.getD 3 []) 1 tarifMaks.toInt "tarif 1..TARIF_MAKS oralig'ida son emas"
        match if nsoz = 5 then bayroqOqi (soz.getD 4 []) else some 0 with
        | none => .error "noma'lum bayroq harfi (T M R S K dan biri bo'lishi kerak)"
        | some bayroq =>
          .ok { id := Int32.ofInt id, ism := Vector.ofFn fun i => (soz.getD 1 []).getD i 0
                toifa := UInt32.ofNat (toifa - 1).toNat, bayroq, tarif := Int64.ofInt tarif
                oddiyDaq := 0, qoshDaq := 0 }

def davomatTahlil (qator : List UInt8) : Except String (ℤ × ℤ × ℤ) :=
  if qatorUz ≤ qator.length then .error "qator juda uzun"
  else
    let (nsoz, soz) := bol qator 4
    if nsoz ≠ 4 then .error "to'rtta butun son kerak"
    else match soz.mapM sonOqi with
      | some [id, kun, kirish, chiqish] =>
        if id < 1000 ∨ 9999 < id ∨ kun < 1 ∨ 31 < kun then .error "ID yoki kun oralig'dan tashqarida"
        else if kirish < 0 ∨ 2359 < kirish ∨ chiqish < 0 ∨ 2359 < chiqish then
          .error "vaqt HHMM oralig'idan tashqarida"
        else .ok (id, kirish, chiqish)
      | _ => .error "to'rtta butun son kerak"

def daqiqaga (hhmm : ℤ) : ℤ := hhmm / 100 * 60 + hhmm % 100

def ishDaqiqalari (kirish chiqish tanaffus : ℤ) : ℤ :=
  if kirish < 0 ∨ chiqish < 0 ∨ 23 < kirish / 100 ∨ 23 < chiqish / 100 ∨ 59 < kirish % 100 ∨ 59 < chiqish % 100 then
    -1
  else if chiqish ≤ kirish then -1
  else
    let sof := daqiqaga chiqish - daqiqaga kirish - tanaffus
    if sof < 0 then 0 else sof

end Text

section Files

/-- `struct yuklash`, and the lines written to `stderr`: the number of the line and the reason. -/
structure Yuklash where
  qabul : ℕ := 0
  rad : ℕ := 0
  stderr : List (ℕ × String) := []

def radEt (raqam : ℕ) (sabab : String) (h : Yuklash) : Yuklash :=
  { h with rad := h.rad + 1, stderr := h.stderr ++ [(raqam, sabab)] }

def fgets : ℕ → List UInt8 → List UInt8 × List UInt8 × Bool
  | 0, f => ([], f, false)
  | _ + 1, [] => ([], [], true)
  | k + 1, c :: f =>
    if c = 10 then ([c], f, false)
    else
      let (qator, f, feof) := fgets k f
      (c :: qator, f, feof)

/-- A line of the file, up to a zero byte in it; `none` inside if it is too long. The file has ended if
there is nothing at all. -/
def qatorOl (f : List UInt8) : Option (Option (List UInt8) × List UInt8) :=
  let (qator, qoldi, feof) := fgets (qatorUz - 1) f
  if qator = [] then none
  else if 10 ∉ qator.takeWhile (· ≠ 0) ∧ feof = false then
    some (none, (qoldi.dropWhile (· ≠ 10)).tail)
  else some (some (qator.takeWhile (· ≠ 0)), qoldi)

lemma fgets_length (k : ℕ) (f : List UInt8) : (fgets k f).1.length + (fgets k f).2.1.length = f.length := by
  induction k generalizing f with
  | zero => exact Nat.zero_add _
  | succ k ih =>
    cases f with
    | nil => rfl
    | cons c f =>
      rw [fgets]
      split_ifs
      · rw [List.length_singleton, List.length_cons, Nat.add_comm]
      · have htail := ih f
        rcases hf : fgets k f with ⟨qator, qoldi, feof⟩
        rw [hf] at htail
        simp only [List.length_cons] at htail ⊢
        omega

lemma qatorOl_length {f qoldi : List UInt8} {qator : Option (List UInt8)} (h : qatorOl f = some (qator, qoldi)) :
    qoldi.length < f.length := by
  have hlen := fgets_length (qatorUz - 1) f
  rw [qatorOl] at h
  rcases hf : fgets (qatorUz - 1) f with ⟨q, r, feof⟩
  rw [hf] at h hlen
  dsimp only at h hlen
  split_ifs at h with hnil
  · cases h
    have hdrop := (List.dropWhile_suffix (l := r) (· ≠ 10)).length_le
    have hpos := List.length_pos_iff.2 hnil
    rw [List.length_tail]
    omega
  · cases h
    have hpos := List.length_pos_iff.2 hnil
    omega

def qatorlar {σ : Type} (ish : ℕ → Option (List UInt8) → σ → σ) (raqam : ℕ) (f : List UInt8) (s : σ) : σ :=
  match _h : qatorOl f with
  | none => s
  | some (qator, qoldi) => qatorlar ish (raqam + 1) qoldi (ish raqam qator s)
termination_by f.length
decreasing_by exact qatorOl_length _h

lemma qatorlar_induction {σ : Type} {ish : ℕ → Option (List UInt8) → σ → σ} {P : σ → Prop}
    (hs : ∀ raqam qator s, P s → P (ish raqam qator s)) (raqam : ℕ) (f : List UInt8) {s : σ} (h : P s) :
    P (qatorlar ish raqam f s) := by
  induction hk : f.length using Nat.strong_induction_on generalizing raqam f s with
  | _ k ih =>
    rw [qatorlar]
    split
    · exact h
    · rename_i qator qoldi hq
      exact ih _ (hk ▸ qatorOl_length hq) _ _ (hs _ _ _ h) rfl

def xodimlarQator (realloc : ℕ → Bool) (raqam : ℕ) (qator : Option (List UInt8)) (s : Ombor × Yuklash) :
    Ombor × Yuklash :=
  match qator with
  | none => (s.1, radEt raqam "qator juda uzun" s.2)
  | some qator =>
    if qator.head? = some 35 ∨ qator.head? = some 10 then s
    else match xodimTahlil qator with
    | .error sabab => (s.1, radEt raqam sabab s.2)
    | .ok x =>
      let (o, q) := omborQosh (realloc raqam) s.1 x
      if q = -2 then (o, radEt raqam "bu ID allaqachon bor" s.2)
      else if q ≠ 0 then (o, radEt raqam "xotira yetmadi" s.2)
      else (o, { s.2 with qabul := s.2.qabul + 1 })

def xodimlarYukla (realloc : ℕ → Bool) (fayl : List UInt8) (o : Ombor) (h : Yuklash) : Ombor × Yuklash :=
  qatorlar (xodimlarQator realloc) 1 fayl (o, h)

def daqQosh (oddiy qosh : Int32) (x : Xodim) : Xodim :=
  { x with oddiyDaq := x.oddiyDaq + oddiy, qoshDaq := x.qoshDaq + qosh }

def oddiyDaqiqa (sof : Int32) : Int32 := if sof < normaKunDaq then sof else normaKunDaq

def davomatQator (raqam : ℕ) (qator : Option (List UInt8)) (s : Ombor × Yuklash) : Ombor × Yuklash :=
  match qator with
  | none => (s.1, radEt raqam "qator juda uzun" s.2)
  | some qator =>
    if qator.head? = some 35 ∨ qator.head? = some 10 then s
    else match davomatTahlil qator with
    | .error sabab => (s.1, radEt raqam sabab s.2)
    | .ok (id, kirish, chiqish) =>
      match omborTop s.1 id with
      | none => (s.1, radEt raqam "bunday ID li xodim yo'q" s.2)
      | some x =>
        let sof := Int32.ofInt (ishDaqiqalari kirish chiqish tanaffusDaq)
        let oddiy := oddiyDaqiqa sof
        let qosh := sof - oddiy
        if sof < 0 then (s.1, radEt raqam "vaqt noto'g'ri (chiqish kirishdan keyin bo'lishi kerak)" s.2)
        else if oyMaksDaq < x.oddiyDaq + x.qoshDaq + sof then
          (s.1, radEt raqam "oylik ish vaqti chegaradan oshib ketadi" s.2)
        else (omborYangila s.1 id (daqQosh oddiy qosh) fun _ => rfl, { s.2 with qabul := s.2.qabul + 1 })

def davomatYukla (fayl : List UInt8) (o : Ombor) (h : Yuklash) : Ombor × Yuklash :=
  qatorlar davomatQator 1 fayl (o, h)

end Files

inductive Yuklangan : Ombor → Prop
  | yarat : Yuklangan omborYarat
  | xodimlar {o : Ombor} (realloc : ℕ → Bool) (fayl : List UInt8) (h : Yuklash) (ho : Yuklangan o) :
      Yuklangan (xodimlarYukla realloc fayl o h).1
  | davomat {o : Ombor} (fayl : List UInt8) (h : Yuklash) (ho : Yuklangan o) :
      Yuklangan (davomatYukla fayl o h).1

section Limits

variable {s qator : List UInt8} {lo hi v : ℤ} {sabab : String} {x : Xodim} {b : UInt8}

lemma oraliq_ok (h : oraliq s lo hi sabab = .ok v) : lo ≤ v ∧ v ≤ hi := by
  rw [oraliq] at h
  split at h
  · split_ifs at h with hout
    · cases h
      omega
  · cases h

lemma not_bayroqBor_or {b c m : UInt8} (hb : ¬ bayroqBor b m) (hc : ¬ bayroqBor c m) : ¬ bayroqBor (b ||| c) m := by
  rw [bayroqBor, not_not] at hb hc ⊢
  have hor : (b ||| c) &&& m = b &&& m ||| c &&& m :=
    UInt8.toBitVec_inj.1 BitVec.and_or_distrib_right
  rw [hor, hb, hc]
  rfl

lemma bayroqHarfi_known {natija c : UInt8} (h : bayroqHarfi natija c = some b)
    (hn : ¬ bayroqBor natija (~~~ fHammasi)) : ¬ bayroqBor b (~~~ fHammasi) := by
  have hbit : ∀ i < harflar.length, ¬ bayroqBor (1 <<< UInt8.ofNat i) (~~~ fHammasi) := by decide
  rw [bayroqHarfi] at h
  split_ifs at h with hi
  cases h
  exact not_bayroqBor_or hn (hbit _ (lt_of_le_of_ne List.idxOf_le_length hi))

lemma foldlM_bayroqHarfi_known {matn : List UInt8} {natija : UInt8} (h : matn.foldlM bayroqHarfi natija = some b)
    (hn : ¬ bayroqBor natija (~~~ fHammasi)) : ¬ bayroqBor b (~~~ fHammasi) := by
  induction matn generalizing natija with
  | nil => exact Option.some.inj h ▸ hn
  | cons c matn ih =>
    obtain ⟨natija', hc, hrest⟩ := Option.bind_eq_some_iff.1 h
    exact ih hrest (bayroqHarfi_known hc hn)

lemma bayroqOqi_known {matn : List UInt8} (h : bayroqOqi matn = some b) : ¬ bayroqBor b (~~~ fHammasi) :=
  foldlM_bayroqHarfi_known h (by decide)

lemma bind_ok {α β : Type} {y : Except String α} {f : α → Except String β} {r : β} (h : y >>= f = .ok r) :
    ∃ a, y = .ok a ∧ f a = .ok r := by
  cases y with
  | error e => cases h
  | ok a => exact ⟨a, rfl, h⟩

lemma xodimTahlil_chegarada (h : xodimTahlil qator = .ok x) : x.Chegarada := by
  rw [xodimTahlil] at h
  split at h
  · cases h
  rcases bol qator 5 with ⟨nsoz, soz⟩
  dsimp only at h
  split at h
  · cases h
  obtain ⟨id, hid, h⟩ := bind_ok h
  split at h
  · cases h
  rename_i hism
  obtain ⟨toifa, htoifa, h⟩ := bind_ok h
  obtain ⟨tarif, htarif, h⟩ := bind_ok h
  split at h
  · cases h
  rename_i bayroq hbayroq
  cases h
  have hid := oraliq_ok hid
  have htoifa := oraliq_ok htoifa
  have htarif := oraliq_ok htarif
  have hidInt : (Int32.ofInt id).toInt = id := Int32.toInt_ofInt_of_le (by omega) (by omega)
  have hmaks : tarifMaks.toInt = 100000000000 := rfl
  have htarifInt : (Int64.ofInt tarif).toInt = tarif := Int64.toInt_ofInt_of_le (by omega) (by omega)
  have hdaq : 0 ≤ (0 : Int32).toInt := by decide
  have hjami : (0 : Int32).toInt + (0 : Int32).toInt ≤ oyMaksDaq.toInt := by decide
  have hyoq : ¬ bayroqBor 0 (~~~ fHammasi) := by decide
  refine ⟨hidInt.symm ▸ hid, ?_, ?_, ?_, htarifInt.symm ▸ htarif, hdaq, hdaq, hjami⟩
  · have hsoni : tSoni = 4 := rfl
    dsimp only
    rw [UInt32.toNat_ofNat']
    omega
  · split_ifs at hbayroq
    · exact bayroqOqi_known hbayroq
    · exact Option.some.inj hbayroq ▸ hyoq
  · dsimp only
    rw [Vector.getElem_ofFn]
    rw [List.getD_eq_getElem?_getD, List.getElem?_eq_none (by dsimp only; omega), Option.getD_none]

lemma mem_omborQosh {realloc : Bool} {o : Ombor} {y : Xodim} (h : y ∈ (omborQosh realloc o x).1.a) :
    y ∈ o.a ∨ y = x := by
  rw [omborQosh] at h
  split_ifs at h
  · exact .inl h
  · exact (List.mem_append.1 h).imp_right List.mem_singleton.1
  · exact .inl h
  · exact (List.mem_append.1 h).imp_right List.mem_singleton.1

lemma xodimlarQator_mem {realloc : ℕ → Bool} {raqam : ℕ} {q : Option (List UInt8)} {s : Ombor × Yuklash}
    (h : x ∈ (xodimlarQator realloc raqam q s).1.a) : x ∈ s.1.a ∨ x.Chegarada := by
  cases q with
  | none => exact .inl h
  | some qator =>
  rw [xodimlarQator] at h
  split at h
  · exact .inl h
  split at h
  · exact .inl h
  rename_i y hy
  have hmem : x ∈ (omborQosh (realloc raqam) s.1 y).1.a := by
    dsimp only at h
    split_ifs at h <;> exact h
  refine (mem_omborQosh hmem).imp_right ?_
  rintro rfl
  exact xodimTahlil_chegarada hy

lemma ishDaqiqalari_le (kirish chiqish : ℤ) : -1 ≤ ishDaqiqalari kirish chiqish tanaffusDaq ∧
    ishDaqiqalari kirish chiqish tanaffusDaq ≤ 1440 := by
  rw [ishDaqiqalari, daqiqaga, daqiqaga, tanaffusDaq]
  dsimp only
  split_ifs <;> omega

lemma int32_add {a b : Int32} (h : -2 ^ 31 ≤ a.toInt + b.toInt ∧ a.toInt + b.toInt < 2 ^ 31) :
    (a + b).toInt = a.toInt + b.toInt := by
  rw [Int32.toInt_add]
  exact Int.bmod_eq_of_le (by omega) (by omega)

lemma int32_sub {a b : Int32} (h : -2 ^ 31 ≤ a.toInt - b.toInt ∧ a.toInt - b.toInt < 2 ^ 31) :
    (a - b).toInt = a.toInt - b.toInt := by
  rw [Int32.toInt_sub]
  exact Int.bmod_eq_of_le (by omega) (by omega)

lemma daqQosh_chegarada {sof oddiy : Int32} (hx : x.Chegarada) (hsof : 0 ≤ sof.toInt ∧ sof.toInt ≤ 1440)
    (hoddiy : 0 ≤ oddiy.toInt ∧ oddiy.toInt ≤ sof.toInt)
    (hle : ¬ oyMaksDaq < x.oddiyDaq + x.qoshDaq + sof) : (daqQosh oddiy (sof - oddiy) x).Chegarada := by
  have hmaks : oyMaksDaq.toInt = 44640 := rfl
  have hod := hx.oddiyDaq
  have hqd := hx.qoshDaq
  have hdaq := hx.daq
  have hsum : (x.oddiyDaq + x.qoshDaq).toInt = x.oddiyDaq.toInt + x.qoshDaq.toInt := int32_add (by omega)
  have hall : (x.oddiyDaq + x.qoshDaq + sof).toInt = x.oddiyDaq.toInt + x.qoshDaq.toInt + sof.toInt := by
    rw [← hsum]
    exact int32_add (by omega)
  have hsub : (sof - oddiy).toInt = sof.toInt - oddiy.toInt := int32_sub (by omega)
  have hodd : (x.oddiyDaq + oddiy).toInt = x.oddiyDaq.toInt + oddiy.toInt := int32_add (by omega)
  have hqosh : (x.qoshDaq + (sof - oddiy)).toInt = x.qoshDaq.toInt + (sof.toInt - oddiy.toInt) := by
    rw [← hsub]
    exact int32_add (by omega)
  rw [Int32.lt_iff_toInt_lt] at hle
  refine ⟨hx.id, hx.toifa, hx.bayroq, hx.ism, hx.tarif, ?_, ?_, ?_⟩
  · rw [daqQosh, hodd]
    omega
  · rw [daqQosh, hqosh]
    omega
  · rw [daqQosh, hodd, hqosh]
    omega

lemma oddiyDaqiqa_le {sof : Int32} (h : 0 ≤ sof.toInt) :
    0 ≤ (oddiyDaqiqa sof).toInt ∧ (oddiyDaqiqa sof).toInt ≤ sof.toInt := by
  have hnorma : normaKunDaq.toInt = 480 := rfl
  rw [oddiyDaqiqa]
  split_ifs with hlt
  · exact ⟨h, le_rfl⟩
  · rw [Int32.lt_iff_toInt_lt] at hlt
    exact ⟨by omega, by omega⟩

lemma mem_omborYangila {o : Ombor} {id : ℤ} {f : Xodim → Xodim} (hf : ∀ x, (f x).id = x.id)
    (h : x ∈ (omborYangila o id f hf).a) : x ∈ o.a ∨ ∃ y ∈ o.a, y.id.toInt = id ∧ x = f y := by
  obtain ⟨y, hy, rfl⟩ := List.mem_map.1 h
  split_ifs with hid
  · exact .inr ⟨y, hy, hid, rfl⟩
  · exact .inl hy

lemma omborTop_eq {o : Ombor} {id : ℤ} {y : Xodim} (h : omborTop o id = some x) (hy : y ∈ o.a)
    (hid : y.id.toInt = id) : y = x := by
  rw [omborTop] at h
  have hx := List.mem_of_find?_eq_some h
  have hxid := List.find?_some h
  rw [decide_eq_true_eq] at hxid
  exact List.inj_on_of_nodup_map o.yagona hy hx (Int32.toInt_inj.1 (hid.trans hxid.symm))

lemma davomatQator_chegarada {raqam : ℕ} {q : Option (List UInt8)} {s : Ombor × Yuklash}
    (hs : ∀ x ∈ s.1.a, x.Chegarada) : ∀ x ∈ (davomatQator raqam q s).1.a, x.Chegarada := by
  cases q with
  | none => exact hs
  | some qator =>
  rw [davomatQator]
  split
  · exact hs
  split
  · exact hs
  rename_i id kirish chiqish hd
  split
  · exact hs
  rename_i x hx
  dsimp only
  have hish := ishDaqiqalari_le kirish chiqish
  have hsof : (Int32.ofInt (ishDaqiqalari kirish chiqish tanaffusDaq)).toInt =
      ishDaqiqalari kirish chiqish tanaffusDaq := Int32.toInt_ofInt_of_le (by omega) (by omega)
  generalize Int32.ofInt (ishDaqiqalari kirish chiqish tanaffusDaq) = sof at hsof
  have hzero : (0 : Int32).toInt = 0 := rfl
  split_ifs with hmanfiy hlt
  · exact hs
  · exact hs
  · intro y hy
    rcases mem_omborYangila (f := daqQosh (oddiyDaqiqa sof) (sof - oddiyDaqiqa sof)) (fun _ => rfl) hy with hy | ⟨z, hz, hid, rfl⟩
    · exact hs y hy
    · obtain rfl := omborTop_eq hx hz hid
      rw [Int32.lt_iff_toInt_lt] at hmanfiy
      have hsof₀ : 0 ≤ sof.toInt := by omega
      exact daqQosh_chegarada (hs z hz) ⟨hsof₀, by omega⟩ (oddiyDaqiqa_le hsof₀) hlt

lemma yuklangan_chegarada {o : Ombor} (h : Yuklangan o) : ∀ x ∈ o.a, x.Chegarada := by
  induction h with
  | yarat => exact fun x hx => absurd hx List.not_mem_nil
  | xodimlar realloc fayl h _ ih =>
    refine qatorlar_induction (P := fun s : Ombor × Yuklash => ∀ x ∈ s.1.a, x.Chegarada) ?_ 1 fayl ih
    exact fun raqam q s hs x hx => (xodimlarQator_mem hx).elim (hs x) id
  | davomat fayl h _ ih =>
    exact qatorlar_induction (P := fun s : Ombor × Yuklash => ∀ x ∈ s.1.a, x.Chegarada)
      (fun raqam q s => davomatQator_chegarada) 1 fayl ih

end Limits

end MyOS.Kadrlar
