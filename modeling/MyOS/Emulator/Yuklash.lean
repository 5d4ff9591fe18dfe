import MyOS.Emulator.Cpu
import MyOS.Emulator.Shina

/-! Power-on: the images that go into the RAM, one after the other, and the machine before its first instruction. -/

namespace MyOS.Emulator

open Library

inductive Nosozlik
  | massiv
  | rad

abbrev Fayl := Option (List UInt8)

def faylOqi (b : List UInt8) (p : ℕ) : Except Nosozlik ℕ :=
  match b[p]? with
  | some v => .ok v.toNat
  | none => .error .massiv

def u16 (b : List UInt8) (p : ℕ) : Except Nosozlik ℕ :=
  (faylOqi b p).bind fun v => (faylOqi b (p + 1)).map fun w => v ||| w <<< 8

def u32 (b : List UInt8) (p : ℕ) : Except Nosozlik ℕ :=
  (u16 b p).bind fun v => (u16 b (p + 2)).map fun w => v ||| w <<< 16

def faylBolak (b : List UInt8) (p n : ℕ) : Except Nosozlik (List UInt8) :=
  if p + n ≤ b.length then .ok ((b.drop p).take n) else .error .massiv

namespace Kompyuter

variable (k : Kompyuter)

def ramKochir (p : ℕ) (l : List UInt8) : Except Nosozlik Kompyuter :=
  if p + l.length ≤ k.ramHajm.toNat then .ok { k with ram := Bytes.store k.ram p l } else .error .massiv

def segmentYukla (b : List UInt8) (ph : ℕ) : Except Nosozlik Kompyuter :=
  (u32 b ph).bind fun tur =>
    if tur ≠ 1 then .ok k
    else
      (u32 b (ph + 4)).bind fun offset => (u32 b (ph + 12)).bind fun manzil =>
        (u32 b (ph + 16)).bind fun fhajm => (u32 b (ph + 20)).bind fun mhajm =>
          if manzil < ramBosh.toNat ∨ k.ramHajm.toNat < manzil - ramBosh.toNat + mhajm ∨ mhajm < fhajm ∨
              b.length < offset + fhajm then .error .rad
          else
            (faylBolak b offset fhajm).bind fun l => (k.ramKochir (manzil - ramBosh.toNat) l).bind fun k =>
              k.ramKochir (manzil - ramBosh.toNat + fhajm) (List.replicate (mhajm - fhajm) 0)

def segmentlarYukla (b : List UInt8) (phoff phhajm : ℕ) : ℕ → ℕ → Kompyuter → Except Nosozlik Kompyuter
  | 0, _, k => .ok k
  | n + 1, i, k =>
    if b.length < phoff + i * phhajm + 32 then .error .rad
    else (k.segmentYukla b (phoff + i * phhajm)).bind (segmentlarYukla b phoff phhajm n (i + 1))

def elfYukla (f : Fayl) : Except Nosozlik (Kompyuter × ℕ) :=
  match f with
  | none => .error .rad
  | some b =>
    if b.length < 52 then .error .rad
    else
      (faylBolak b 0 4).bind fun sehr =>
        if sehr ≠ [0x7F, 69, 76, 70] then .error .rad
        else
          (faylOqi b 4).bind fun sinf => (faylOqi b 5).bind fun tartib => (u16 b 18).bind fun arxitektura =>
            if sinf ≠ 1 ∨ tartib ≠ 1 ∨ arxitektura ≠ 0xF3 then .error .rad
            else
              (u32 b 28).bind fun phoff => (u16 b 44).bind fun phsoni => (u16 b 42).bind fun phhajm =>
                (segmentlarYukla b phoff phhajm phsoni 0 k).bind fun k => (u32 b 24).map fun kirish => (k, kirish)

def xomYukla (f : Fayl) (manzil : ℕ) : Except Nosozlik Kompyuter :=
  match f with
  | none => .error .rad
  | some b =>
    if b.length = 0 ∨ k.ramHajm.toNat < manzil - ramBosh.toNat + b.length then .error .rad
    else k.ramKochir (manzil - ramBosh.toNat) b

end Kompyuter

/-! The device tree. -/

def cpuIntc : Word := 1

def plicPh : Word := 2

structure Fdt where
  tuzilma : List UInt8 := []
  satrlar : List UInt8 := []

/-- The function is left as an exercise: it writes zeros. -/
def be32Yoz (_q : Word) : List UInt8 := [0, 0, 0, 0]

def satr (s : String) : List UInt8 := s.toList.map (fun c => UInt8.ofNat c.toNat) ++ [0]

namespace Fdt

variable (f : Fdt)

/-- The alignment is left as an exercise. -/
def baytlar (b : List UInt8) : Fdt := { f with tuzilma := f.tuzilma ++ b }

def token (t : Word) : Fdt := f.baytlar (be32Yoz t)

/-- The table of names is left as an exercise: it stays empty. -/
def satrSiljishi (_nom : String) : Word := BitVec.ofNat 32 f.satrlar.length

def tugun (nom : String) : Fdt := (f.token 1).baytlar (satr nom)

def tugunOxiri : Fdt := f.token 2

def xossa (nom : String) (qiymat : List UInt8) : Fdt :=
  ((f.token 3).baytlar (be32Yoz (BitVec.ofNat 32 qiymat.length) ++ be32Yoz ((f.token 3).satrSiljishi nom))).baytlar qiymat

def xossaBosh (nom : String) : Fdt := f.xossa nom []

def xossaMatn (nom q : String) : Fdt := f.xossa nom (satr q)

def xossaSonlar (nom : String) (q : List Word) : Fdt := f.xossa nom (q.flatMap be32Yoz)

def xossaSon (nom : String) (q : Word) : Fdt := f.xossaSonlar nom [q]

def xossaMatnlar (nom : String) (q : List String) : Fdt := f.xossa nom (q.flatMap satr)

def boshi (ramHajm : Word) : Fdt :=
  ({} : Fdt).tugun "" |>.xossaSon "#address-cells" 1 |>.xossaSon "#size-cells" 1
    |>.xossaMatn "compatible" "riscv-virtio" |>.xossaMatn "model" "virtual-kompyuter,rv32"
    |>.tugun "chosen" |>.xossaMatn "stdout-path" "/soc/serial@10000000" |>.tugunOxiri
    |>.tugun "memory@80000000" |>.xossaMatn "device_type" "memory" |>.xossaSonlar "reg" [ramBosh, ramHajm] |>.tugunOxiri

def cpus : Fdt :=
  f.tugun "cpus" |>.xossaSon "#address-cells" 1 |>.xossaSon "#size-cells" 0 |>.xossaSon "timebase-frequency" 10000000
    |>.tugun "cpu@0" |>.xossaMatn "device_type" "cpu" |>.xossaSon "reg" 0 |>.xossaMatn "status" "okay"
    |>.xossaMatn "compatible" "riscv" |>.xossaMatn "riscv,isa" "rv32imac_zicsr_zifencei"
    |>.xossaMatn "riscv,isa-base" "rv32i"
    |>.xossaMatnlar "riscv,isa-extensions" ["i", "m", "a", "c", "zicsr", "zifencei", "zicntr"]
    |>.xossaMatn "mmu-type" "riscv,sv32"
    |>.tugun "interrupt-controller" |>.xossaSon "#interrupt-cells" 1 |>.xossaBosh "interrupt-controller"
    |>.xossaMatn "compatible" "riscv,cpu-intc" |>.xossaSon "phandle" cpuIntc |>.tugunOxiri |>.tugunOxiri |>.tugunOxiri

def soc : Fdt :=
  f.tugun "soc" |>.xossaSon "#address-cells" 1 |>.xossaSon "#size-cells" 1 |>.xossaMatn "compatible" "simple-bus"
    |>.xossaBosh "ranges"
    |>.tugun "clint@2000000" |>.xossaMatnlar "compatible" ["sifive,clint0", "riscv,clint0"]
    |>.xossaSonlar "reg" [clintManzil, clintHajm] |>.xossaSonlar "interrupts-extended" [cpuIntc, 3, cpuIntc, 7] |>.tugunOxiri
    |>.tugun "plic@c000000" |>.xossaMatnlar "compatible" ["sifive,plic-1.0.0", "riscv,plic0"]
    |>.xossaSonlar "reg" [plicManzil, plicHajm] |>.xossaSon "#address-cells" 0 |>.xossaSon "#interrupt-cells" 1
    |>.xossaBosh "interrupt-controller" |>.xossaSonlar "interrupts-extended" [cpuIntc, 11, cpuIntc, 9] |>.xossaSon "riscv,ndev" 31
    |>.xossaSon "phandle" plicPh |>.tugunOxiri
    |>.tugun "serial@10000000" |>.xossaMatn "compatible" "ns16550a" |>.xossaSonlar "reg" [uartManzil, 0x100]
    |>.xossaSon "clock-frequency" 3686400 |>.xossaSon "interrupt-parent" plicPh |>.xossaSon "interrupts" 10 |>.tugunOxiri
    |>.tugunOxiri

def daraxt (ramHajm : Word) : Fdt := ((boshi ramHajm).cpus.soc.tugunOxiri).token 9

end Fdt

def daraxtQur (ramHajm : Word) (sigim : ℕ) : Option (List UInt8) :=
  let f := Fdt.daraxt ramHajm
  let offTuzilma := 40 + 16
  let offSatr := offTuzilma + f.tuzilma.length
  let jami := offSatr + f.satrlar.length
  if sigim < jami then none
  else
    let sarlavha : List Word := [0xD00DFEED, BitVec.ofNat 32 jami, BitVec.ofNat 32 offTuzilma, BitVec.ofNat 32 offSatr, 40, 17,
      16, 0, BitVec.ofNat 32 f.satrlar.length, BitVec.ofNat 32 f.tuzilma.length]
    some (sarlavha.flatMap be32Yoz ++ List.replicate 16 0 ++ f.tuzilma ++ f.satrlar)

def joy : ℕ := 64 * 1024

def Kompyuter.dtbYoz (k : Kompyuter) (manzil : Word) (blob : Option (List UInt8)) : Except Nosozlik (Kompyuter × Word) :=
  match blob with
  | none => .ok (k, 0)
  | some blob => (k.ramKochir (manzil - ramBosh).toNat blob).map fun k => (k, manzil)

def Kompyuter.dtbJoylash (k : Kompyuter) : Except Nosozlik (Kompyuter × Word) :=
  k.dtbYoz (ramBosh + k.ramHajm - BitVec.ofNat 32 joy) (daraxtQur k.ramHajm joy)

/-- The options of `main` that bear on the start: the size of the RAM in MiB, whether there is memory for it, the disk
(nothing where it cannot be opened), the files, and `-S`. -/
structure Parametrlar where
  ramMb : Word := 64
  xotira : Bool := true
  disk : Option Disk := some {}
  birinchi : Fayl
  ikkinchi : Option Fayl := none
  xom : Option Fayl := none
  faqatS : Bool := false

def xomManzil : ℕ := 0x80400000

def Kompyuter.agarBor (k : Kompyuter) (f : Option Fayl) (yukla : Kompyuter → Fayl → Except Nosozlik Kompyuter) :
    Except Nosozlik Kompyuter :=
  match f with
  | none => .ok k
  | some f => yukla k f

def Kompyuter.tasvirlarYukla (k : Kompyuter) (p : Parametrlar) : Except Nosozlik (Kompyuter × ℕ × Word) :=
  (k.elfYukla p.birinchi).bind fun (k, kirish) =>
    (k.agarBor p.ikkinchi fun k f => (k.elfYukla f).map Prod.fst).bind fun k =>
      (k.agarBor p.xom fun k f => k.xomYukla f xomManzil).bind fun k =>
        k.dtbJoylash.map fun (k, manzil) => (k, kirish, manzil)

def Kompyuter.tayyorla (k : Kompyuter) (faqatS : Bool) (kirish : ℕ) (manzil : Word) : Kompyuter :=
  let c := { k.cpu with
    pc := BitVec.ofNat 32 kirish
    x := fun i => if i = 10 then 0 else if i = 11 then manzil else k.cpu.x i
    stimecmp := -1 }
  let c := if faqatS then
      { c with rejim := rejimS, medeleg := 0xB3FF, mideleg := mipSBitlar, menvcfgh := menvcfghStce, mcounteren := 7 }
    else { c with rejim := rejimM }
  { k with mtimecmp := -1, cpu := c }

def yoqish (p : Parametrlar) : Except Nosozlik Kompyuter :=
  if p.ramMb = 0 ∨ 1024 < p.ramMb then .error .rad
  else if p.xotira = false then .error .rad
  else
    match p.disk with
    | none => .error .rad
    | some disk =>
      (Kompyuter.tasvirlarYukla { cpu := {}, ramHajm := p.ramMb * 1024 * 1024, disk := disk } p).map
        fun (k, kirish, manzil) => k.tayyorla p.faqatS kirish manzil

/-! What the files hold. -/

def u16At (b : List UInt8) (p : ℕ) : ℕ := (b.getD p 0).toNat ||| (b.getD (p + 1) 0).toNat <<< 8

def u32At (b : List UInt8) (p : ℕ) : ℕ := u16At b p ||| u16At b (p + 2) <<< 16

def segment (b : List UInt8) (ph : ℕ) : Option (ℕ × List UInt8) :=
  if u32At b ph = 1 then
    some (u32At b (ph + 12) - ramBosh.toNat,
      (b.drop (u32At b (ph + 4))).take (u32At b (ph + 16)) ++ List.replicate (u32At b (ph + 20) - u32At b (ph + 16)) 0)
  else none

def segmentlar (b : List UInt8) : List (ℕ × List UInt8) :=
  (List.range (u16At b 44)).filterMap fun i => segment b (u32At b 28 + i * u16At b 42)

def daraxtTasviri (ramHajm : Word) : ℕ × List UInt8 := (ramHajm.toNat - joy, (daraxtQur ramHajm joy).getD [])

def Parametrlar.tasvirlar (p : Parametrlar) : List (ℕ × List UInt8) :=
  segmentlar (p.birinchi.getD []) ++ (p.ikkinchi.elim [] fun f => segmentlar (f.getD [])) ++
    (p.xom.elim [] fun f => [(xomManzil - ramBosh.toNat, f.getD [])]) ++ [daraxtTasviri (p.ramMb * 1024 * 1024)]

end MyOS.Emulator

/-! The images are in the RAM, one after the other, and no access is outside. -/

namespace MyOS.Emulator

open Library

variable {k k' : Kompyuter} {b l : List UInt8} {p n : ℕ}

lemma faylOqi_eq (h : p < b.length) : faylOqi b p = .ok (b.getD p 0).toNat := by
  rw [faylOqi, List.getD_eq_getElem?_getD, List.getElem?_eq_getElem h]
  rfl

lemma u16_eq (h : p + 2 ≤ b.length) : u16 b p = .ok (u16At b p) := by
  rw [u16, faylOqi_eq (by omega), faylOqi_eq (by omega)]
  rfl

lemma u32_eq (h : p + 4 ≤ b.length) : u32 b p = .ok (u32At b p) := by
  rw [u32, u16_eq (by omega), u16_eq (by omega)]
  rfl

lemma faylBolak_eq (h : p + n ≤ b.length) : faylBolak b p n = .ok ((b.drop p).take n) := if_pos h

lemma ok_bind {α β : Type} (a : α) (f : α → Except Nosozlik β) : (Except.ok a).bind f = f a := rfl

def joylash (ram : ℕ → UInt8) (x : ℕ × List UInt8) : ℕ → UInt8 := Bytes.store ram x.1 x.2

structure Yuklaydi (k : Kompyuter) (l : List (ℕ × List UInt8)) (r : Except Nosozlik Kompyuter) : Prop where
  ichida : r ≠ .error .massiv
  ram : ∀ k', r = .ok k' → k'.ram = l.foldl joylash k.ram
  qolgani : ∀ k', r = .ok k' → k'.ramHajm = k.ramHajm ∧ k'.cpu = k.cpu
  sigadi : ∀ k', r = .ok k' → ∀ x ∈ l, x.1 + x.2.length ≤ k.ramHajm.toNat

namespace Yuklaydi

variable {xs ys : List (ℕ × List UInt8)} {r : Except Nosozlik Kompyuter}

lemma rad : Yuklaydi k xs (.error .rad) where
  ichida h := Nosozlik.noConfusion (Except.error.inj h)
  ram _ h := by cases h
  qolgani _ h := by cases h
  sigadi _ h := by cases h

lemma bosh : Yuklaydi k [] (.ok k) where
  ichida h := by cases h
  ram k' h := congrArg Kompyuter.ram (Except.ok.inj h).symm
  qolgani k' h := by
    cases h
    exact ⟨rfl, rfl⟩
  sigadi _ _ x hx := absurd hx List.not_mem_nil

lemma bind {f : Kompyuter → Except Nosozlik Kompyuter} (h : Yuklaydi k xs r) (hf : ∀ k', r = .ok k' → Yuklaydi k' ys (f k')) :
    Yuklaydi k (xs ++ ys) (r.bind f) := by
  cases r with
  | error e =>
    cases e with
    | massiv => exact absurd rfl h.ichida
    | rad => exact rad
  | ok k₁ =>
    have h₁ := hf k₁ rfl
    obtain ⟨hhajm, hcpu⟩ := h.qolgani k₁ rfl
    refine ⟨h₁.ichida, fun k' hk => ?_, fun k' hk => ?_, fun k' hk x hx => ?_⟩
    · rw [h₁.ram k' hk, h.ram k₁ rfl, List.foldl_append]
    · obtain ⟨hhajm', hcpu'⟩ := h₁.qolgani k' hk
      exact ⟨hhajm'.trans hhajm, hcpu'.trans hcpu⟩
    · rcases List.mem_append.1 hx with hx | hx
      · exact h.sigadi k₁ rfl x hx
      · have := h₁.sigadi k' hk x hx
        rwa [hhajm] at this

end Yuklaydi

lemma ramKochir_yuklaydi (h : p + l.length ≤ k.ramHajm.toNat) : Yuklaydi k [(p, l)] (k.ramKochir p l) := by
  rw [Kompyuter.ramKochir, if_pos h]
  refine ⟨nofun, fun k' hk => ?_, fun k' hk => ?_, fun k' _ x hx => ?_⟩
  · cases hk
    rfl
  · cases hk
    exact ⟨rfl, rfl⟩
  · rw [List.mem_singleton.1 hx]
    exact h

lemma Yuklaydi.append {l' : List UInt8} {r : Except Nosozlik Kompyuter} (h : Yuklaydi k [(p, l), (p + l.length, l')] r) :
    Yuklaydi k [(p, l ++ l')] r where
  ichida := h.ichida
  ram k' hk := (h.ram k' hk).trans (Bytes.store_append l l')
  qolgani := h.qolgani
  sigadi k' hk x hx := by
    have := h.sigadi k' hk _ (List.mem_cons_of_mem _ List.mem_cons_self)
    rw [List.mem_singleton.1 hx, List.length_append]
    dsimp only at this ⊢
    omega

lemma segmentYukla_yuklaydi {ph : ℕ} (h : ph + 32 ≤ b.length) :
    Yuklaydi k (segment b ph).toList (k.segmentYukla b ph) := by
  rw [Kompyuter.segmentYukla, segment]
  generalize ramBosh.toNat = bosh
  rw [u32_eq (by omega), u32_eq (by omega), u32_eq (by omega), u32_eq (by omega), u32_eq (by omega), ok_bind, ok_bind, ok_bind,
    ok_bind, ok_bind]
  by_cases htur : u32At b ph = 1
  · rw [if_neg (not_not.2 htur), if_pos htur]
    split_ifs with hsig
    · exact .rad
    rw [not_or, not_or, not_or] at hsig
    obtain ⟨-, hram, hle, hfayl⟩ := hsig
    rw [faylBolak_eq (by omega), ok_bind]
    have hlen : ((b.drop (u32At b (ph + 4))).take (u32At b (ph + 16))).length = u32At b (ph + 16) := by
      rw [List.length_take, List.length_drop]
      omega
    refine Yuklaydi.append (Yuklaydi.bind (ramKochir_yuklaydi (by rw [hlen]; omega)) fun k' hk => ?_)
    rw [hlen]
    have hhajm : k'.ramHajm = k.ramHajm := ((ramKochir_yuklaydi (by rw [hlen]; omega)).qolgani k' hk).1
    exact ramKochir_yuklaydi (by rw [hhajm, List.length_replicate]; omega)
  · rw [if_pos htur, if_neg htur]
    exact .bosh

lemma segmentlarYukla_yuklaydi (phoff phhajm n i : ℕ) : Yuklaydi k
    ((List.range' i n).filterMap fun i => segment b (phoff + i * phhajm)) (Kompyuter.segmentlarYukla b phoff phhajm n i k) := by
  induction n generalizing i k with
  | zero => exact .bosh
  | succ n ih =>
    rw [Kompyuter.segmentlarYukla]
    split_ifs with h
    · exact .rad
    have hstep := (segmentYukla_yuklaydi (k := k) (not_lt.1 h)).bind fun k' _ => ih (k := k') (i + 1)
    rw [List.range'_succ, List.filterMap_cons]
    cases hs : segment b (phoff + i * phhajm) with
    | none | some x =>
      rw [hs] at hstep
      exact hstep

lemma map_fst {α : Type} (r : Except Nosozlik Kompyuter) (a : α) :
    (r.bind fun k => (Except.ok a : Except Nosozlik α).map fun a => (k, a)).map Prod.fst = r := by
  cases r <;> rfl

lemma elfYukla_yuklaydi (f : Fayl) : Yuklaydi k (segmentlar (f.getD [])) ((k.elfYukla f).map Prod.fst) := by
  cases f with
  | none => exact .rad
  | some b =>
    rw [Kompyuter.elfYukla]
    split_ifs with hlen
    · exact .rad
    rw [faylBolak_eq (by omega), ok_bind]
    split_ifs with hsehr
    · exact .rad
    rw [faylOqi_eq (by omega), faylOqi_eq (by omega), u16_eq (by omega), ok_bind, ok_bind, ok_bind]
    split_ifs with htur
    · exact .rad
    rw [u32_eq (by omega), u16_eq (by omega), u16_eq (by omega), u32_eq (by omega), ok_bind, ok_bind, ok_bind, map_fst,
      segmentlar, List.range_eq_range']
    exact segmentlarYukla_yuklaydi ..

lemma xomYukla_yuklaydi (f : Fayl) (manzil : ℕ) :
    Yuklaydi k [(manzil - ramBosh.toNat, f.getD [])] (k.xomYukla f manzil) := by
  cases f with
  | none => exact .rad
  | some b =>
    rw [Kompyuter.xomYukla]
    split_ifs with h
    · exact .rad
    · exact ramKochir_yuklaydi (by rw [Option.getD_some]; omega)

lemma agarBor_yuklaydi (f : Option Fayl) {yukla : Kompyuter → Fayl → Except Nosozlik Kompyuter}
    {l : Fayl → List (ℕ × List UInt8)} (h : ∀ k f, Yuklaydi k (l f) (yukla k f)) :
    Yuklaydi k (f.elim [] l) (k.agarBor f yukla) := by
  cases f with
  | none => exact .bosh
  | some f => exact h k f

section Fdt

variable (f : Fdt) (nom q : String)

lemma length_be32Yoz (l : List Word) : (l.flatMap be32Yoz).length = 4 * l.length := by
  induction l with
  | nil => rfl
  | cons q l ih =>
    rw [List.flatMap_cons, List.length_append, ih, List.length_cons, be32Yoz]
    simp only [List.length_cons, List.length_nil]
    omega

lemma length_satr (s : String) : (satr s).length = s.length + 1 := by
  rw [satr, List.length_append, List.length_map, String.length_toList, List.length_singleton]

lemma length_token (t : Word) : (f.token t).tuzilma.length = f.tuzilma.length + 4 := List.length_append

lemma length_tugun : (f.tugun nom).tuzilma.length = f.tuzilma.length + (nom.length + 5) := by
  have happend : (f.tugun nom).tuzilma.length = (f.token 1).tuzilma.length + (satr nom).length := List.length_append
  rw [happend, length_token, length_satr]
  omega

lemma length_xossa (l : List UInt8) : (f.xossa nom l).tuzilma.length = f.tuzilma.length + (l.length + 12) := by
  have happend : (f.xossa nom l).tuzilma.length = (f.token 3).tuzilma.length + 8 + l.length := by
    rw [Fdt.xossa, Fdt.baytlar, List.length_append, Fdt.baytlar, List.length_append]
    rfl
  rw [happend, length_token]
  omega

end Fdt

lemma length_daraxt (ramHajm : Word) : (Fdt.daraxt ramHajm).tuzilma.length = 1065 ∧ (Fdt.daraxt ramHajm).satrlar = [] := by
  refine ⟨?_, rfl⟩
  simp only [Fdt.daraxt, Fdt.boshi, Fdt.cpus, Fdt.soc, Fdt.xossaBosh, Fdt.xossaMatn, Fdt.xossaMatnlar, Fdt.xossaSon,
    Fdt.xossaSonlar, Fdt.tugunOxiri, length_token, length_tugun, length_xossa, length_satr,
    List.length_nil, List.flatMap_cons, List.flatMap_nil, List.length_append]
  rfl

lemma daraxtQur_eq (ramHajm : Word) : ∃ blob, daraxtQur ramHajm joy = some blob ∧ blob.length = 1121 := by
  obtain ⟨htuzilma, hsatrlar⟩ := length_daraxt ramHajm
  rw [daraxtQur]
  dsimp only
  rw [htuzilma, hsatrlar, if_neg (by decide)]
  refine ⟨_, rfl, ?_⟩
  rw [List.length_append, List.length_append, List.length_append, length_be32Yoz, List.length_replicate, htuzilma]
  simp only [List.length_cons, List.length_nil]

lemma dtbJoylash_yuklaydi (h : joy ≤ k.ramHajm.toNat) : Yuklaydi k [daraxtTasviri k.ramHajm] (k.dtbJoylash.map Prod.fst) ∧
    ∀ r, k.dtbJoylash = .ok r → r.2.toNat = (ramBosh.toNat + (k.ramHajm.toNat - joy)) % 2 ^ 32 := by
  obtain ⟨blob, hblob, hlen⟩ := daraxtQur_eq k.ramHajm
  have hjoy : joy = 65536 := rfl
  have hmanzil : (ramBosh + k.ramHajm - BitVec.ofNat 32 joy - ramBosh).toNat = k.ramHajm.toNat - joy := by
    rw [hjoy] at h ⊢
    have hbosh : ramBosh.toNat = 2147483648 := rfl
    rw [BitVec.toNat_sub, BitVec.toNat_sub, BitVec.toNat_add, BitVec.toNat_ofNat, hbosh]
    omega
  rw [Kompyuter.dtbJoylash, daraxtTasviri, hblob, Kompyuter.dtbYoz, hmanzil, Option.getD_some]
  constructor
  · have hload := ramKochir_yuklaydi (k := k) (p := k.ramHajm.toNat - joy) (l := blob) (by omega)
    generalize k.ramHajm.toNat - joy = q at hload ⊢
    generalize k.ramKochir q blob = r at hload ⊢
    cases r <;> exact hload
  · intro r hr
    generalize k.ramKochir (k.ramHajm.toNat - joy) blob = q at hr
    cases q with
    | error e => cases hr
    | ok k' =>
      cases hr
      dsimp only
      rw [hjoy] at h ⊢
      have hbosh : ramBosh.toNat = 2147483648 := rfl
      rw [BitVec.toNat_sub, BitVec.toNat_add, BitVec.toNat_ofNat, hbosh]
      omega

lemma bind_eq_ok {α β : Type} {r : Except Nosozlik α} {f : α → Except Nosozlik β} {b : β} (h : r.bind f = .ok b) :
    ∃ a, r = .ok a ∧ f a = .ok b := by
  cases r with
  | error e => cases h
  | ok a => exact ⟨a, rfl, h⟩

lemma map_eq_ok {α β : Type} {r : Except Nosozlik α} {f : α → β} {b : β} (h : r.map f = .ok b) :
    ∃ a, r = .ok a ∧ f a = b := by
  cases r with
  | error e => cases h
  | ok a => exact ⟨a, rfl, Except.ok.inj h⟩

lemma tasvirlarYukla_fst (p : Parametrlar) :
    (k.tasvirlarYukla p).map Prod.fst = ((k.elfYukla p.birinchi).map Prod.fst).bind fun k =>
      (k.agarBor p.ikkinchi fun k f => (k.elfYukla f).map Prod.fst).bind fun k =>
        (k.agarBor p.xom fun k f => k.xomYukla f xomManzil).bind fun k => k.dtbJoylash.map Prod.fst := by
  rw [Kompyuter.tasvirlarYukla]
  cases k.elfYukla p.birinchi with
  | error e => rfl
  | ok r =>
    obtain ⟨k₁, kirish⟩ := r
    rw [ok_bind, Except.map, ok_bind]
    dsimp only
    cases k₁.agarBor p.ikkinchi fun k f => (k.elfYukla f).map Prod.fst with
    | error e => rfl
    | ok k₂ =>
      rw [ok_bind, ok_bind]
      cases k₂.agarBor p.xom fun k f => k.xomYukla f xomManzil with
      | error e => rfl
      | ok k₃ =>
        rw [ok_bind, ok_bind]
        cases k₃.dtbJoylash <;> rfl

lemma tasvirlarYukla_yuklaydi (p : Parametrlar) (h : joy ≤ k.ramHajm.toNat) :
    Yuklaydi k (segmentlar (p.birinchi.getD []) ++ ((p.ikkinchi.elim [] fun f => segmentlar (f.getD [])) ++
      ((p.xom.elim [] fun f => [(xomManzil - ramBosh.toNat, f.getD [])]) ++ [daraxtTasviri k.ramHajm])))
      ((k.tasvirlarYukla p).map Prod.fst) := by
  rw [tasvirlarYukla_fst]
  have hikkinchi := fun k : Kompyuter => agarBor_yuklaydi (k := k) p.ikkinchi fun k f => elfYukla_yuklaydi (k := k) f
  have hxom := fun k : Kompyuter => agarBor_yuklaydi (k := k) p.xom fun k f => xomYukla_yuklaydi (k := k) f xomManzil
  have hbirinchi := elfYukla_yuklaydi (k := k) p.birinchi
  refine hbirinchi.bind fun k₁ h₁ => (hikkinchi k₁).bind fun k₂ h₂ => (hxom k₂).bind fun k₃ h₃ => ?_
  have hhajm : k₃.ramHajm = k.ramHajm :=
    ((hxom k₂).qolgani k₃ h₃).1.trans (((hikkinchi k₁).qolgani k₂ h₂).1.trans (hbirinchi.qolgani k₁ h₁).1)
  rw [← hhajm] at h ⊢
  exact (dtbJoylash_yuklaydi h).1

lemma tasvirlarYukla_manzil (p : Parametrlar) (h : joy ≤ k.ramHajm.toNat) {r : Kompyuter × ℕ × Word}
    (hr : k.tasvirlarYukla p = .ok r) : r.2.2.toNat = (ramBosh.toNat + (k.ramHajm.toNat - joy)) % 2 ^ 32 := by
  obtain ⟨⟨k₁, kirish⟩, h₁, hr⟩ := bind_eq_ok hr
  obtain ⟨k₂, h₂, hr⟩ := bind_eq_ok hr
  obtain ⟨k₃, h₃, hr⟩ := bind_eq_ok hr
  obtain ⟨⟨k₄, manzil⟩, h₄, rfl⟩ := map_eq_ok hr
  have hhajm₁ := ((elfYukla_yuklaydi (k := k) p.birinchi).qolgani k₁ (by rw [h₁]; rfl)).1
  have hhajm₂ := ((agarBor_yuklaydi p.ikkinchi fun k f => elfYukla_yuklaydi (k := k) f).qolgani k₂ h₂).1
  have hhajm₃ := ((agarBor_yuklaydi p.xom fun k f => xomYukla_yuklaydi (k := k) f xomManzil).qolgani k₃ h₃).1
  have hhajm : k₃.ramHajm = k.ramHajm := hhajm₃.trans (hhajm₂.trans hhajm₁)
  rw [← hhajm] at h ⊢
  exact (dtbJoylash_yuklaydi h).2 _ h₄

lemma foldl_joylash {xs : List (ℕ × List UInt8)} (ram : ℕ → UInt8) {i : ℕ}
    (h : ∀ x ∈ xs, ¬ (x.1 ≤ i ∧ i < x.1 + x.2.length)) : xs.foldl joylash ram i = ram i := by
  induction xs generalizing ram with
  | nil => rfl
  | cons x xs ih =>
    rw [List.foldl_cons, ih _ fun y hy => h y (List.mem_cons_of_mem _ hy)]
    exact Bytes.store_of_not_mem (h x List.mem_cons_self)

lemma foldl_joylash_at {xs ys : List (ℕ × List UInt8)} {x : ℕ × List UInt8} (ram : ℕ → UInt8) {i : ℕ} (hi : i < x.2.length)
    (h : ∀ y ∈ ys, ¬ (y.1 ≤ x.1 + i ∧ x.1 + i < y.1 + y.2.length)) :
    (xs ++ x :: ys).foldl joylash ram (x.1 + i) = x.2.getD i 0 := by
  rw [List.foldl_append, List.foldl_cons, foldl_joylash _ h, joylash, Bytes.store, if_pos (by omega), Nat.add_sub_cancel_left]

lemma ramHajm_ge {mb : Word} (h0 : mb ≠ 0) (h1 : ¬ 1024 < mb) : joy ≤ (mb * 1024 * 1024).toNat ∧
    (mb * 1024 * 1024).toNat ≤ 2 ^ 30 := by
  have hne : mb.toNat ≠ 0 := fun h => h0 (BitVec.eq_of_toNat_eq h)
  have hle : mb.toNat ≤ 1024 := by
    rw [BitVec.lt_def] at h1
    exact not_lt.1 h1
  have hmul : (mb * 1024 * 1024).toNat = mb.toNat * 1024 * 1024 := by
    rw [BitVec.toNat_mul, BitVec.toNat_mul]
    change mb.toNat * 1024 % 2 ^ 32 * 1024 % 2 ^ 32 = _
    omega
  rw [hmul, joy]
  omega

lemma tayyorla_boshlangich (hk : k.cpu = {}) (faqatS : Bool) (kirish : ℕ) (manzil : Word) :
    Mashina.boshlangich faqatS (k.tayyorla faqatS kirish manzil).toMashina := by
  rw [Mashina.boshlangich, Kompyuter.tayyorla, hk]
  cases faqatS <;> exact ⟨rfl, rfl⟩

lemma tayyorla_manzil (faqatS : Bool) (kirish : ℕ) (manzil : Word) : (k.tayyorla faqatS kirish manzil).cpu.x 11 = manzil := by
  cases faqatS <;> rfl

def bosh (p : Parametrlar) (disk : Disk) : Kompyuter := { cpu := {}, ramHajm := p.ramMb * 1024 * 1024, disk := disk }

lemma yoqish_cases (p : Parametrlar) : yoqish p = .error .rad ∨ ∃ disk, joy ≤ (bosh p disk).ramHajm.toNat ∧
    (bosh p disk).ramHajm.toNat ≤ 2 ^ 30 ∧ yoqish p = ((bosh p disk).tasvirlarYukla p).map fun (k, kirish, manzil) =>
      k.tayyorla p.faqatS kirish manzil := by
  rw [yoqish]
  split_ifs with hmb hxotira
  · exact .inl rfl
  · exact .inl rfl
  rw [not_or] at hmb
  cases p.disk with
  | none => exact .inl rfl
  | some disk => exact .inr ⟨disk, (ramHajm_ge hmb.1 hmb.2).1, (ramHajm_ge hmb.1 hmb.2).2, rfl⟩

lemma bosh_yuklaydi (p : Parametrlar) {disk : Disk} (hjoy : joy ≤ (bosh p disk).ramHajm.toNat) :
    Yuklaydi (bosh p disk) p.tasvirlar (((bosh p disk).tasvirlarYukla p).map Prod.fst) := by
  have hy := tasvirlarYukla_yuklaydi p hjoy
  rw [← List.append_assoc, ← List.append_assoc] at hy
  exact hy

lemma yoqish_ram {p : Parametrlar} (hk : yoqish p = .ok k) : k.ram = p.tasvirlar.foldl joylash fun _ => 0 := by
  obtain hrad | ⟨disk, hjoy, -, heq⟩ := yoqish_cases p
  · rw [hrad] at hk
    cases hk
  · rw [heq] at hk
    obtain ⟨r, hr, rfl⟩ := map_eq_ok hk
    exact (bosh_yuklaydi p hjoy).ram r.1 (by rw [hr]; rfl)

theorem yoqish_spec (p : Parametrlar) : yoqish p ≠ .error .massiv ∧ ∀ k, yoqish p = .ok k →
    k.ramHajm = p.ramMb * 1024 * 1024 ∧ Mashina.boshlangich p.faqatS k.toMashina ∧
      (∀ x ∈ p.tasvirlar, x.1 + x.2.length ≤ k.ramHajm.toNat) ∧
      (∀ xs x ys, p.tasvirlar = xs ++ x :: ys → ∀ i < x.2.length,
        (∀ y ∈ ys, ¬ (y.1 ≤ x.1 + i ∧ x.1 + i < y.1 + y.2.length)) → k.ram (x.1 + i) = x.2.getD i 0) ∧
      (k.cpu.x 11).toNat = ramBosh.toNat + (daraxtTasviri k.ramHajm).1 ∧
      ∀ i < (daraxtTasviri k.ramHajm).2.length,
        k.ram ((daraxtTasviri k.ramHajm).1 + i) = (daraxtTasviri k.ramHajm).2.getD i 0 := by
  obtain hrad | ⟨disk, hjoy, htop, heq⟩ := yoqish_cases p
  · rw [hrad]
    exact ⟨fun h => Nosozlik.noConfusion (Except.error.inj h), fun k h => by cases h⟩
  have hy := bosh_yuklaydi p hjoy
  constructor
  · rw [heq]
    intro h
    cases hr : (bosh p disk).tasvirlarYukla p with
    | error e =>
      rw [hr] at h hy
      exact hy.ichida (congrArg Except.error (Except.error.inj h))
    | ok r =>
      rw [hr] at h
      cases h
  intro k hk
  have hram := yoqish_ram hk
  have hintact : ∀ xs x ys, p.tasvirlar = xs ++ x :: ys → ∀ i < x.2.length,
      (∀ y ∈ ys, ¬ (y.1 ≤ x.1 + i ∧ x.1 + i < y.1 + y.2.length)) → k.ram (x.1 + i) = x.2.getD i 0 := by
    intro xs x ys htasvir i hi hlater
    rw [hram, htasvir]
    exact foldl_joylash_at _ hi hlater
  rw [heq] at hk
  obtain ⟨⟨k₁, kirish, manzil⟩, hr, rfl⟩ := map_eq_ok hk
  have hmanzil := tasvirlarYukla_manzil p hjoy hr
  have hfst : ((bosh p disk).tasvirlarYukla p).map Prod.fst = .ok k₁ := by rw [hr]; rfl
  obtain ⟨hhajm, hcpu⟩ := hy.qolgani k₁ hfst
  refine ⟨hhajm, tayyorla_boshlangich hcpu .., ?_, hintact, ?_, fun i hi => ?_⟩
  · exact hhajm ▸ hy.sigadi k₁ hfst
  · rw [tayyorla_manzil, hmanzil, daraxtTasviri]
    change _ = ramBosh.toNat + (k₁.ramHajm.toNat - joy)
    rw [hhajm]
    have hbosh : ramBosh.toNat = 2147483648 := rfl
    omega
  · obtain ⟨xs, hxs⟩ : ∃ xs, p.tasvirlar = xs ++ [daraxtTasviri k₁.ramHajm] := ⟨_, by rw [hhajm]; rfl⟩
    exact hintact xs _ [] hxs i hi fun y hy => absurd hy List.not_mem_nil

lemma yoqish_ok {p : Parametrlar} {disk : Disk} {k₁ k₂ k₃ : Kompyuter} {kirish : ℕ} (hmb : p.ramMb ≠ 0 ∧ ¬ 1024 < p.ramMb)
    (hxotira : p.xotira ≠ false) (hdisk : p.disk = some disk) (h₁ : (bosh p disk).elfYukla p.birinchi = .ok (k₁, kirish))
    (h₂ : (k₁.agarBor p.ikkinchi fun k f => (k.elfYukla f).map Prod.fst) = .ok k₂)
    (h₃ : (k₂.agarBor p.xom fun k f => k.xomYukla f xomManzil) = .ok k₃) : ∃ k, yoqish p = .ok k := by
  have hhajm₁ := ((elfYukla_yuklaydi p.birinchi).qolgani k₁ (by rw [h₁]; rfl)).1
  have hhajm₂ := ((agarBor_yuklaydi p.ikkinchi fun k f => elfYukla_yuklaydi (k := k) f).qolgani k₂ h₂).1
  have hhajm₃ := ((agarBor_yuklaydi p.xom fun k f => xomYukla_yuklaydi (k := k) f xomManzil).qolgani k₃ h₃).1
  have hhajm : k₃.ramHajm = p.ramMb * 1024 * 1024 := hhajm₃.trans (hhajm₂.trans hhajm₁)
  have hjoy := (ramHajm_ge hmb.1 hmb.2).1
  obtain ⟨blob, hblob, hlen⟩ := daraxtQur_eq k₃.ramHajm
  have hjoy' : joy = 65536 := rfl
  have hmanzil : (ramBosh + k₃.ramHajm - BitVec.ofNat 32 joy - ramBosh).toNat + blob.length ≤ k₃.ramHajm.toNat := by
    rw [← hhajm] at hjoy
    rw [hlen]
    rw [hjoy'] at hjoy ⊢
    have hbosh : ramBosh.toNat = 2147483648 := rfl
    rw [BitVec.toNat_sub, BitVec.toNat_sub, BitVec.toNat_add, BitVec.toNat_ofNat, hbosh]
    omega
  have hdtb : ∃ r, k₃.dtbJoylash = .ok r := by
    rw [Kompyuter.dtbJoylash, hblob, Kompyuter.dtbYoz, Kompyuter.ramKochir, if_pos hmanzil]
    exact ⟨_, rfl⟩
  obtain ⟨r, hr⟩ := hdtb
  rw [yoqish, if_neg (not_or.2 hmb), if_neg hxotira, hdisk]
  change ∃ k, ((bosh p disk).tasvirlarYukla p).map _ = _
  rw [Kompyuter.tasvirlarYukla, h₁, ok_bind]
  dsimp only
  rw [h₂, ok_bind, h₃, ok_bind, hr]
  exact ⟨_, rfl⟩

def birBayt (v : UInt8) : List UInt8 :=
  [0x7F, 69, 76, 70, 1, 1] ++ List.replicate 12 0 ++ [0xF3, 0] ++ List.replicate 8 0 ++ [52, 0, 0, 0] ++
    List.replicate 10 0 ++ [32, 0, 1, 0] ++ List.replicate 6 0 ++ [1, 0, 0, 0, 84, 0, 0, 0, 0, 0, 0, 0, 0, 0, 0, 0x80, 1, 0, 0, 0,
    1, 0, 0, 0] ++ List.replicate 8 0 ++ [v]

def birinchisi : Parametrlar := { ramMb := 1, birinchi := some (birBayt 17) }

def ikkalasi : Parametrlar := { birinchisi with ikkinchi := some (some (birBayt 34)) }

lemma isSome_ok {α : Type} {r : Except Nosozlik α} (h : r.toOption.isSome = true) : ∃ a, r = .ok a := by
  cases r with
  | error e => cases h
  | ok a => exact ⟨a, rfl⟩

lemma ikkalasi_ok : ∃ k, yoqish ikkalasi = .ok k := by
  obtain ⟨k₂, h⟩ := isSome_ok (r := ((bosh ikkalasi {}).elfYukla (some (birBayt 17))).bind fun r =>
    (r.1.elfYukla (some (birBayt 34))).map Prod.fst) (by decide +kernel)
  obtain ⟨⟨k₁, kirish⟩, h₁, h₂⟩ := bind_eq_ok h
  exact yoqish_ok (by decide) (by decide) rfl h₁ h₂ rfl

lemma birinchisi_ok : ∃ k, yoqish birinchisi = .ok k := by
  obtain ⟨⟨k₁, kirish⟩, h₁⟩ := isSome_ok (r := (bosh birinchisi {}).elfYukla (some (birBayt 17))) (by decide +kernel)
  exact yoqish_ok (by decide) (by decide) rfl h₁ rfl rfl

lemma segmentlar_birBayt : segmentlar (birBayt 17) = [(0, [17])] ∧ segmentlar (birBayt 34) = [(0, [34])] := by
  decide +kernel

theorem not_yoqish_intact : ∃ k, yoqish ikkalasi = .ok k ∧
    ∃ x ∈ segmentlar (birBayt 17), ∃ i < x.2.length, k.ram (x.1 + i) ≠ x.2.getD i 0 := by
  obtain ⟨k, hk⟩ := ikkalasi_ok
  have htasvir : ikkalasi.tasvirlar = [(0, [17])] ++ (0, [34]) :: [daraxtTasviri (1 * 1024 * 1024)] := by
    rw [Parametrlar.tasvirlar]
    change segmentlar (birBayt 17) ++ segmentlar (birBayt 34) ++ [] ++ _ = _
    rw [segmentlar_birBayt.1, segmentlar_birBayt.2]
    rfl
  have hram : k.ram 0 = 34 := by
    rw [yoqish_ram hk, htasvir]
    refine foldl_joylash_at (x := (0, [34])) (fun _ => 0) (i := 0) (by decide) fun y hy => ?_
    rw [List.mem_singleton.1 hy]
    exact fun h => absurd h.1 (by decide)
  refine ⟨k, hk, (0, [17]), segmentlar_birBayt.1 ▸ List.mem_singleton_self _, 0, by decide, ?_⟩
  rw [Nat.add_zero, hram]
  decide

theorem yoqish_spec_one : ∃ k, yoqish birinchisi = .ok k ∧ k.ram 0 = 17 := by
  obtain ⟨k, hk⟩ := birinchisi_ok
  have htasvir : birinchisi.tasvirlar = [] ++ (0, [17]) :: [daraxtTasviri (1 * 1024 * 1024)] := by
    rw [Parametrlar.tasvirlar]
    change segmentlar (birBayt 17) ++ [] ++ [] ++ _ = _
    rw [segmentlar_birBayt.1]
    rfl
  refine ⟨k, hk, ((yoqish_spec birinchisi).2 k hk).2.2.2.1 _ _ _ htasvir 0 (by decide) fun y hy => ?_⟩
  rw [List.mem_singleton.1 hy]
  exact fun h => absurd h.1 (by decide)

end MyOS.Emulator
