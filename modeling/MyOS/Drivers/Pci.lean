import MyOS.Library.Traversal

/-! The scan of the PCI buses, which finds the devices, and the drivers that are bound to them. -/

namespace MyOS.Drivers.Pci

structure Fn where
  bus : ℕ
  dev : ℕ
  func : ℕ
  deriving DecidableEq, Repr

abbrev Config := Fn → ℕ → BitVec 32

def barOffset (i : ℕ) : ℕ := 0x10 + i * 4

structure Wiring where
  rw : Fn → ℕ → BitVec 32
  clear : Fn → ℕ → BitVec 32
  bars : ∀ fn, ∀ i < 6, clear fn (barOffset i) = 0
  command : ∀ fn, ∀ i < 16, (clear fn 4).getLsbD i = false

def Wiring.write (w : Wiring) (cfg : Config) (fn : Fn) (off : ℕ) (v : BitVec 32) : Config :=
  fun x o =>
    if x = fn ∧ o = off then
      ((cfg fn off &&& ~~~ w.rw fn off) ||| (v &&& w.rw fn off)) &&& ~~~ (v &&& w.clear fn off)
    else cfg x o

def pciRead32 (cfg : Config) (fn : Fn) (off : ℕ) : BitVec 32 := cfg fn (off / 4 * 4)

def pciRead16 (cfg : Config) (fn : Fn) (off : ℕ) : BitVec 16 :=
  (pciRead32 cfg fn off >>> (off % 4 / 2 * 16)).setWidth 16

def pciRead8 (cfg : Config) (fn : Fn) (off : ℕ) : BitVec 8 :=
  (pciRead32 cfg fn off >>> (off % 4 * 8)).setWidth 8

def pciWrite32 (w : Wiring) (cfg : Config) (fn : Fn) (off : ℕ) (v : BitVec 32) : Config :=
  w.write cfg fn (off / 4 * 4) v

def pciWrite16 (w : Wiring) (cfg : Config) (fn : Fn) (off : ℕ) (val : BitVec 16) : Config :=
  let v := pciRead32 cfg fn off
  let shift := off % 4 / 2 * 16
  pciWrite32 w cfg fn off ((v &&& ~~~ (0xffff#32 <<< shift)) ||| (val.setWidth 32 <<< shift))

structure PciBar where
  base : BitVec 64 := 0
  size : BitVec 64 := 0
  isIo : Bool := false
  is64 : Bool := false
  prefetchable : Bool := false
  deriving DecidableEq

structure PciDevice where
  fn : Fn
  vendor : BitVec 16
  device : BitVec 16
  classCode : BitVec 8
  subclass : BitVec 8
  progIf : BitVec 8
  revision : BitVec 8
  headerType : BitVec 8
  irqLine : BitVec 8
  irqPin : BitVec 8
  bars : List PciBar := List.replicate 6 {}
  driver : Option String := none

/-- The value of a register, and what it holds after all ones were written; the value is put back. -/
def sizeRegister (w : Wiring) (cfg : Config) (fn : Fn) (off : ℕ) : BitVec 32 × BitVec 32 × Config :=
  let orig := pciRead32 cfg fn off
  let cfg := pciWrite32 w cfg fn off 0xffffffff
  let mask := pciRead32 cfg fn off
  (orig, mask, pciWrite32 w cfg fn off orig)

def ioBar (orig mask : BitVec 32) : PciBar where
  isIo := true
  base := (orig &&& ~~~ 3#32).setWidth 64
  size := ((~~~ (mask &&& ~~~ 3#32) + 1) &&& 0xffff).setWidth 64

def memBar (orig mask : BitVec 32) : PciBar where
  prefetchable := orig &&& 8 != 0
  base := (orig &&& ~~~ 0xf#32).setWidth 64
  size := if mask &&& ~~~ 0xf#32 = 0 then 0 else (~~~ (mask &&& ~~~ 0xf#32) + 1).setWidth 64

def memBar64 (orig mask origHi maskHi : BitVec 32) : PciBar where
  prefetchable := orig &&& 8 != 0
  is64 := true
  base := (orig &&& ~~~ 0xf#32).setWidth 64 ||| (origHi.setWidth 64 <<< 32)
  size :=
    let sizeMask := (mask &&& ~~~ 0xf#32).setWidth 64 ||| (maskHi.setWidth 64 <<< 32)
    if sizeMask = 0 then 0 else ~~~ sizeMask + 1

def barLoop (w : Wiring) (fn : Fn) : ℕ → ℕ → Config × List PciBar → Config × List PciBar
  | 0, _, s => s
  | n + 1, i, (cfg, bars) =>
    if 6 ≤ i then (cfg, bars)
    else
      let (orig, mask, cfg) := sizeRegister w cfg fn (barOffset i)
      if orig &&& 1 ≠ 0 then barLoop w fn n (i + 1) (cfg, bars.set i (ioBar orig mask))
      else if (orig >>> 1) &&& 3 = 2 ∧ i < 5 then
        let (origHi, maskHi, cfg) := sizeRegister w cfg fn (barOffset (i + 1))
        barLoop w fn n (i + 2) (cfg, bars.set i (memBar64 orig mask origHi maskHi))
      else barLoop w fn n (i + 1) (cfg, bars.set i (memBar orig mask))

def readBars (w : Wiring) (cfg : Config) (d : PciDevice) : Config × PciDevice :=
  if d.headerType &&& 0x7f ≠ 0 then (cfg, d)
  else
    let cmd := pciRead16 cfg d.fn 4
    let cfg := pciWrite16 w cfg d.fn 4 (cmd &&& ~~~ 3#16)
    let (cfg, bars) := barLoop w d.fn 6 0 (cfg, d.bars)
    (pciWrite16 w cfg d.fn 4 cmd, { d with bars := bars })

structure ScanState where
  cfg : Config
  devices : List PciDevice := []
  allocs : ℕ := 0

def responds (cfg : Config) (fn : Fn) : Bool := pciRead32 cfg fn 0 &&& 0xffff != 0xffff

def found (cfg : Config) (fn : Fn) : PciDevice where
  fn := fn
  vendor := (pciRead32 cfg fn 0).setWidth 16
  device := (pciRead32 cfg fn 0 >>> 16).setWidth 16
  revision := (pciRead32 cfg fn 8).setWidth 8
  progIf := (pciRead32 cfg fn 8 >>> 8).setWidth 8
  subclass := (pciRead32 cfg fn 8 >>> 16).setWidth 8
  classCode := (pciRead32 cfg fn 8 >>> 24).setWidth 8
  headerType := pciRead8 cfg fn 0x0e
  irqLine := pciRead8 cfg fn 0x3c
  irqPin := pciRead8 cfg fn 0x3d

section Scan

variable (w : Wiring) (kzalloc : ℕ → Bool)

def scanFunction (scan : ℕ → ScanState → Option ScanState) (fn : Fn) (s : ScanState) : Option ScanState :=
  if responds s.cfg fn = false then some s
  else if kzalloc s.allocs = false then some { s with allocs := s.allocs + 1 }
  else
    let (cfg, d) := readBars w s.cfg (found s.cfg fn)
    let s := { cfg := cfg, devices := s.devices ++ [d], allocs := s.allocs + 1 }
    if d.classCode = 0x06 ∧ d.subclass = 0x04 then
      let secondary := (pciRead8 s.cfg fn 0x19).toNat
      if fn.bus < secondary then scan secondary s else some s
    else some s

def multiFunction (cfg : Config) (bus dev : ℕ) : Bool :=
  (pciRead32 cfg ⟨bus, dev, 0⟩ 0x0c >>> 16) &&& 0x80 != 0

def scanDevice (scan : ℕ → ScanState → Option ScanState) (bus : ℕ) (s : ScanState) (dev : ℕ) : Option ScanState :=
  if responds s.cfg ⟨bus, dev, 0⟩ = false then some s
  else do
    let s ← scanFunction w kzalloc scan ⟨bus, dev, 0⟩ s
    if multiFunction s.cfg bus dev then
      (List.range' 1 7).foldlM (fun s f => scanFunction w kzalloc scan ⟨bus, dev, f⟩ s) s
    else some s

/-- Nothing when the levels are used up. -/
def scanBus : ℕ → ℕ → ScanState → Option ScanState
  | 0, _, _ => none
  | n + 1, bus, s => (List.range 32).foldlM (scanDevice w kzalloc (scanBus n) bus) s

def pciScan (cfg : Config) : Option ScanState := do
  let s ← scanBus w kzalloc 256 0 { cfg := cfg }
  if multiFunction s.cfg 0 0 then
    (List.range' 1 7).foldlM
      (fun s f => if responds s.cfg ⟨0, 0, f⟩ then scanBus w kzalloc 256 f s else some s) s
  else some s

end Scan

structure PciDriver where
  name : String
  vendor : BitVec 16
  device : BitVec 16
  classCode : BitVec 8
  subclass : BitVec 8
  progIf : BitVec 8

def driverMatches (drv : PciDriver) (d : PciDevice) : Bool :=
  (drv.vendor == 0xffff || drv.vendor == d.vendor) && (drv.device == 0xffff || drv.device == d.device) &&
    (drv.classCode == 0xff || drv.classCode == d.classCode) &&
    (drv.subclass == 0xff || drv.subclass == d.subclass) && (drv.progIf == 0xff || drv.progIf == d.progIf)

section Bind

-- a probe may depend on those before it
variable (probe : List (String × Fn) → PciDriver → PciDevice → Bool)

def bindOne (drv : PciDriver) (s : PciDevice × List (String × Fn)) : PciDevice × List (String × Fn) :=
  let (d, probes) := s
  if d.driver.isSome || !driverMatches drv d then (d, probes)
  else
    let bound := { d with driver := some drv.name }
    (if probe probes drv bound then bound else { d with driver := none }, probes ++ [(drv.name, d.fn)])

structure Bound where
  devices : List PciDevice := []
  drivers : List PciDriver := []
  probes : List (String × Fn) := []

def tryBind (drivers : List PciDriver) (s : PciDevice × List (String × Fn)) : PciDevice × List (String × Fn) :=
  drivers.foldl (fun s drv => bindOne probe drv s) s

def Bound.forEach (b : Bound) (bind : PciDevice × List (String × Fn) → PciDevice × List (String × Fn))
    (devices : List PciDevice) : Bound :=
  devices.foldl (fun b d =>
    { b with
      devices := b.devices ++ [(bind (d, b.probes)).1]
      probes := (bind (d, b.probes)).2 }) { b with devices := [] }

def Bound.bindAll (b : Bound) (devices : List PciDevice) : Bound :=
  b.forEach (tryBind probe b.drivers) devices

def Bound.register (b : Bound) (drv : PciDriver) : Bound :=
  ({ b with drivers := b.drivers ++ [drv] } : Bound).forEach (bindOne probe drv) b.devices

def Bound.run (before : List PciDriver) (found : List PciDevice) (after : List PciDriver) : Bound :=
  after.foldl (fun b drv => b.register probe drv)
    (Bound.bindAll probe (before.foldl (fun b drv => b.register probe drv) {}) found)

end Bind

end MyOS.Drivers.Pci

/-! What the scan finds, and that it puts the registers back. -/

namespace MyOS.Drivers.Pci

open Library Traversal

section Routes

variable (cfg : Config)

def deviceFunctions (bus dev : ℕ) : List Fn :=
  if responds cfg ⟨bus, dev, 0⟩ then
    ⟨bus, dev, 0⟩ :: if multiFunction cfg bus dev then
      ((List.range' 1 7).map (Fn.mk bus dev)).filter (responds cfg) else []
  else []

def functions (bus : ℕ) : List Fn := (List.range 32).flatMap (deviceFunctions cfg bus)

def isBridge (fn : Fn) : Bool := (found cfg fn).classCode == 0x06 && (found cfg fn).subclass == 0x04

def secondary (fn : Fn) : ℕ := (pciRead8 cfg fn 0x19).toNat

def behind (fn : Fn) : Option ℕ :=
  if isBridge cfg fn ∧ fn.bus < secondary cfg fn then some (secondary cfg fn) else none

def scannedRoots : List ℕ :=
  0 :: if multiFunction cfg 0 0 then (List.range' 1 7).filter (responds cfg ⟨0, 0, ·⟩) else []

end Routes

structure SameConfig (cfg cfg' : Config) : Prop where
  other : ∀ fn off, off ≠ 4 → cfg' fn off = cfg fn off
  command : ∀ fn, ∀ i < 16, (cfg' fn 4).getLsbD i = (cfg fn 4).getLsbD i

variable {w : Wiring} {kzalloc : ℕ → Bool} {cfg cfg' cfg'' : Config} {fn : Fn} {bus dev n : ℕ}

section Registers

lemma SameConfig.refl (cfg : Config) : SameConfig cfg cfg := ⟨fun _ _ _ => rfl, fun _ _ _ => rfl⟩

lemma SameConfig.trans (h : SameConfig cfg cfg') (h' : SameConfig cfg' cfg'') : SameConfig cfg cfg'' :=
  ⟨fun fn off ho => (h'.other fn off ho).trans (h.other fn off ho),
    fun fn i hi => (h'.command fn i hi).trans (h.command fn i hi)⟩

lemma SameConfig.read32 (h : SameConfig cfg cfg') {off : ℕ} (hoff : off / 4 ≠ 1) :
    pciRead32 cfg' fn off = pciRead32 cfg fn off := h.other fn _ (by omega)

lemma barOffset_aligned (i : ℕ) : barOffset i / 4 * 4 = barOffset i := by
  unfold barOffset
  omega

lemma write_back (x v rw : BitVec 32) :
    (((((x &&& ~~~ rw) ||| (v &&& rw)) &&& ~~~ (v &&& 0)) &&& ~~~ rw) ||| (x &&& rw)) &&& ~~~ (x &&& 0) = x := by
  ext j
  simp only [BitVec.getElem_and, BitVec.getElem_or, BitVec.getElem_not]
  cases x[j] <;> cases rw[j] <;> simp

lemma sizeRegister_cfg {i : ℕ} (hi : i < 6) : (sizeRegister w cfg fn (barOffset i)).2.2 = cfg := by
  have hclear := w.bars fn i hi
  unfold sizeRegister pciWrite32 pciRead32
  rw [barOffset_aligned]
  funext x o
  unfold Wiring.write
  by_cases hx : x = fn ∧ o = barOffset i
  · obtain ⟨rfl, rfl⟩ := hx
    simp only [and_self, if_true, hclear]
    exact write_back _ _ _
  · simp only [if_neg hx]

lemma barLoop_cfg {i : ℕ} {bars : List PciBar} : (barLoop w fn n i (cfg, bars)).1 = cfg := by
  induction n generalizing i bars with
  | zero => rfl
  | succ n ih =>
    rw [barLoop]
    split_ifs with hi
    · rfl
    · have h₁ : (sizeRegister w cfg fn (barOffset i)).2.2 = cfg := sizeRegister_cfg (Nat.lt_of_not_le hi)
      simp only [h₁]
      split_ifs with hio h64
      · exact ih
      · rw [sizeRegister_cfg (by omega)]
        exact ih
      · exact ih

lemma pciWrite16_other {val : BitVec 16} {x : Fn} {off : ℕ} (h : ¬ (x = fn ∧ off = 4)) :
    pciWrite16 w cfg fn 4 val x off = cfg x off := if_neg h

lemma upper_mask : ∀ k : Fin 16, (0xffff0000#32)[(k : ℕ)] = false := by decide

lemma pciWrite16_command {val : BitVec 16} {i : ℕ} (hi : i < 16) :
    (pciWrite16 w cfg fn 4 val fn 4).getLsbD i =
      if (w.rw fn 4).getLsbD i then val.getLsbD i else (cfg fn 4).getLsbD i := by
  have hi' : i < 32 := by omega
  have hclear : (w.clear fn 4)[i] = false := w.command fn i hi
  have hmask : (0xffff0000#32)[i] = false := upper_mask ⟨i, hi⟩
  unfold pciWrite16 pciWrite32 pciRead32 Wiring.write
  simp [hi', hclear, hmask]
  cases (w.rw fn 4)[i] <;> simp

lemma readBars_same {d : PciDevice} : SameConfig cfg (readBars w cfg d).1 := by
  unfold readBars
  split_ifs with hd
  · exact .refl cfg
  have hcmd {i : ℕ} (hi : i < 16) : (pciRead16 cfg d.fn 4).getLsbD i = (cfg d.fn 4).getLsbD i := by
    simp [pciRead16, pciRead32, hi]
  have hloop (c : Config) (bars : List PciBar) : (barLoop w d.fn 6 0 (c, bars)).1 = c := barLoop_cfg
  simp only [hloop]
  refine ⟨fun fn off ho => ?_, fun fn i hi => ?_⟩
  · rw [pciWrite16_other (fun h => ho h.2), pciWrite16_other (fun h => ho h.2)]
  · by_cases hfn : fn = d.fn
    · subst hfn
      rw [pciWrite16_command hi, pciWrite16_command hi, hcmd hi]
      split_ifs <;> rfl
    · rw [pciWrite16_other (fun h => hfn h.1), pciWrite16_other (fun h => hfn h.1)]

variable (w cfg) in
lemma readBars_device (d : PciDevice) : (readBars w cfg d).2.fn = d.fn ∧
    (readBars w cfg d).2.classCode = d.classCode ∧ (readBars w cfg d).2.subclass = d.subclass := by
  unfold readBars
  split_ifs <;> exact ⟨rfl, rfl, rfl⟩

end Registers

section Scan

variable {f g : ScanState → Option ScanState} {l l' : List Fn}

lemma SameConfig.responds (h : SameConfig cfg cfg') : responds cfg' fn = responds cfg fn := by
  unfold Pci.responds
  rw [h.read32 (by decide)]

lemma SameConfig.multiFunction (h : SameConfig cfg cfg') :
    multiFunction cfg' bus dev = multiFunction cfg bus dev := by
  unfold Pci.multiFunction
  rw [h.read32 (by decide)]

lemma SameConfig.read8 (h : SameConfig cfg cfg') {off : ℕ} (hoff : off / 4 ≠ 1) :
    pciRead8 cfg' fn off = pciRead8 cfg fn off := by
  unfold pciRead8
  rw [h.read32 hoff]

lemma SameConfig.found (h : SameConfig cfg cfg') : found cfg' fn = found cfg fn := by
  unfold Pci.found
  simp only [h.read32 (show 0 / 4 ≠ 1 by decide), h.read32 (show 8 / 4 ≠ 1 by decide),
    h.read8 (show 0x0e / 4 ≠ 1 by decide), h.read8 (show 0x3c / 4 ≠ 1 by decide),
    h.read8 (show 0x3d / 4 ≠ 1 by decide)]

def Scans (kzalloc : ℕ → Bool) (cfg : Config) (f : ScanState → Option ScanState) (l : List Fn) : Prop :=
  ∀ s, SameConfig cfg s.cfg → ∃ s', f s = some s' ∧ SameConfig cfg s'.cfg ∧
    ((∀ n, kzalloc n = true) → s'.devices.map (·.fn) = s.devices.map (·.fn) ++ l)

lemma Scans.nothing : Scans kzalloc cfg some [] := fun s hs => ⟨s, rfl, hs, fun _ => by simp⟩

lemma Scans.bind (hf : Scans kzalloc cfg f l) (hg : Scans kzalloc cfg g l') :
    Scans kzalloc cfg (fun s => f s >>= g) (l ++ l') := by
  intro s hs
  obtain ⟨t, ht, hst, hl⟩ := hf s hs
  obtain ⟨u, hu, htu, hl'⟩ := hg t hst
  refine ⟨u, by simp [ht, hu], htu, fun hmem => ?_⟩
  rw [hl' hmem, hl hmem, List.append_assoc]

lemma Scans.foldlM {α : Type} {step : ScanState → α → Option ScanState} {part : α → List Fn} {as : List α}
    (h : ∀ a ∈ as, Scans kzalloc cfg (step · a) (part a)) :
    Scans kzalloc cfg (fun s => as.foldlM step s) (as.flatMap part) := by
  induction as with
  | nil => exact .nothing
  | cons a as ih =>
    exact (h a List.mem_cons_self).bind (ih fun b hb => h b (List.mem_cons_of_mem a hb))

lemma scanFunction_scans {scan : ℕ → ScanState → Option ScanState} {part : ℕ → List Fn}
    (hscan : ∀ c ∈ behind cfg fn, Scans kzalloc cfg (scan c) (part c)) :
    Scans kzalloc cfg (scanFunction w kzalloc scan fn)
      (if responds cfg fn then fn :: (behind cfg fn).elim [] part else []) := by
  intro s hs
  unfold scanFunction
  rw [hs.responds]
  cases hr : responds cfg fn with
  | false => exact ⟨s, rfl, hs, fun _ => by simp⟩
  | true =>
    obtain ⟨hfn, hclass, hsub⟩ := readBars_device w s.cfg (found s.cfg fn)
    rw [hs.found] at hfn hclass hsub
    replace hfn : (readBars w s.cfg (found cfg fn)).2.fn = fn := hfn
    have hs' : SameConfig cfg (readBars w s.cfg (found cfg fn)).1 := hs.trans readBars_same
    simp only [Bool.true_eq_false, if_false, if_true, hs.found, hclass, hsub, hs'.read8 (show 0x19 / 4 ≠ 1 by decide)]
    by_cases halloc : kzalloc s.allocs = false
    · rw [if_pos halloc]
      exact ⟨_, rfl, hs, fun hmem => absurd (hmem s.allocs) (by simp [halloc])⟩
    rw [if_neg halloc]
    by_cases hbridge : (found cfg fn).classCode = 0x06 ∧ (found cfg fn).subclass = 0x04
    · rw [if_pos hbridge]
      by_cases hlt : fn.bus < secondary cfg fn
      · have hbehind : behind cfg fn = some (secondary cfg fn) :=
          if_pos ⟨by simp [isBridge, hbridge.1, hbridge.2], hlt⟩
        obtain ⟨t, ht, hst, hl⟩ := hscan _ hbehind ⟨_, _, s.allocs + 1⟩ hs'
        refine ⟨t, (if_pos hlt).trans ht, hst, fun hmem => ?_⟩
        rw [hl hmem, hbehind]
        simp [hfn]
      · have hbehind : behind cfg fn = none := if_neg (fun h => hlt h.2)
        refine ⟨_, if_neg hlt, hs', fun _ => ?_⟩
        simp [hbehind, hfn]
    · have hbehind : behind cfg fn = none :=
        if_neg (fun h => hbridge (by simpa [isBridge] using h.1))
      rw [if_neg hbridge]
      refine ⟨_, rfl, hs', fun _ => ?_⟩
      simp [hbehind, hfn]

lemma flatMap_filter {α β : Type} (p : α → Bool) (g : α → List β) (as : List α) :
    (as.filter p).flatMap g = as.flatMap fun a => if p a then g a else [] := by
  induction as with
  | nil => rfl
  | cons a as ih => cases h : p a <;> simp [h, ih]

lemma scanDevice_scans {scan : ℕ → ScanState → Option ScanState} {part : ℕ → List Fn}
    (hscan : ∀ fn, fn.bus = bus → ∀ c ∈ behind cfg fn, Scans kzalloc cfg (scan c) (part c)) :
    Scans kzalloc cfg (scanDevice w kzalloc scan bus · dev)
      ((deviceFunctions cfg bus dev).flatMap fun fn => fn :: (behind cfg fn).elim [] part) := by
  intro s hs
  unfold scanDevice deviceFunctions
  dsimp only
  rw [hs.responds]
  cases hr : responds cfg ⟨bus, dev, 0⟩ with
  | false => exact Scans.nothing s hs
  | true =>
    have hfirst := scanFunction_scans (w := w) (hscan ⟨bus, dev, 0⟩ rfl)
    rw [hr, if_pos rfl] at hfirst
    rw [if_pos rfl, List.flatMap_cons]
    refine hfirst.bind (fun t ht => ?_) s hs
    rw [ht.multiFunction]
    cases hm : multiFunction cfg bus dev with
    | false => exact Scans.nothing t ht
    | true =>
      rw [if_pos rfl, if_pos rfl, flatMap_filter, List.flatMap_map]
      exact Scans.foldlM (fun f _ => scanFunction_scans (hscan _ rfl)) t ht

lemma behind_bounds {c : ℕ} (hc : c ∈ behind cfg fn) : fn.bus < c ∧ c < 256 := by
  unfold behind at hc
  split_ifs at hc with h
  · cases hc
    exact ⟨h.2, BitVec.isLt _⟩
  · cases hc

lemma scanBus_scans (hn : 256 ≤ n + bus) (hbus : bus < 256) :
    Scans kzalloc cfg (scanBus w kzalloc n bus) (visit (functions cfg) (behind cfg) n bus) := by
  induction n generalizing bus with
  | zero => omega
  | succ n ih =>
    rw [visit, functions, List.flatMap_assoc]
    refine Scans.foldlM fun dev _ => scanDevice_scans fun fn hfn c hc => ?_
    obtain ⟨hlt, hbound⟩ := behind_bounds hc
    exact ih (by omega) hbound

variable (w kzalloc cfg) in
lemma pciScan_scans : ∃ s, pciScan w kzalloc cfg = some s ∧ SameConfig cfg s.cfg ∧
    ((∀ n, kzalloc n = true) →
      s.devices.map (·.fn) = (scannedRoots cfg).flatMap (visit (functions cfg) (behind cfg) 256)) := by
  have hroot : Scans kzalloc cfg (fun s => scanBus w kzalloc 256 0 s >>= fun s =>
      if multiFunction s.cfg 0 0 then
        (List.range' 1 7).foldlM
          (fun s f => if responds s.cfg ⟨0, 0, f⟩ then scanBus w kzalloc 256 f s else some s) s
      else some s)
      ((scannedRoots cfg).flatMap (visit (functions cfg) (behind cfg) 256)) := by
    rw [scannedRoots, List.flatMap_cons]
    refine (scanBus_scans (by decide) (by decide)).bind fun t ht => ?_
    rw [ht.multiFunction]
    cases hm : multiFunction cfg 0 0 with
    | false => exact Scans.nothing t ht
    | true =>
      rw [if_pos rfl, if_pos rfl, flatMap_filter]
      refine Scans.foldlM (fun f hf u hu => ?_) t ht
      dsimp only
      rw [hu.responds]
      cases hr : responds cfg ⟨0, 0, f⟩ with
      | false => exact Scans.nothing u hu
      | true =>
        have := List.mem_range'.1 hf
        exact scanBus_scans (by omega) (by omega) u hu
  obtain ⟨s, hs, hsame, hlist⟩ := hroot { cfg := cfg } (.refl cfg)
  exact ⟨s, hs, hsame, fun hmem => by simpa using hlist hmem⟩

end Scan

end MyOS.Drivers.Pci
