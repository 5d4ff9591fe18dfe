import MyOS.Drivers.Pci

/-! The buses as a forest below the host bridges, and when the scan meets every function in it once. -/

namespace MyOS.Drivers.Pci

open Library Traversal Relation

section Forest

variable (cfg : Config)

def isHostBridge (fn : Fn) : Bool := (found cfg fn).classCode == 0x06 && (found cfg fn).subclass == 0x00

def isHostRoot (r : ℕ) : Bool := r == 0 || isHostBridge cfg ⟨0, 0, r⟩

def hostRoots : List ℕ := (scannedRoots cfg).filter (isHostRoot cfg)

def otherRoots : List ℕ := (scannedRoots cfg).filter (! isHostRoot cfg ·)

def BridgeTo (b c : ℕ) : Prop := ∃ fn ∈ functions cfg b, isBridge cfg fn ∧ secondary cfg fn = c

def Reachable (b : ℕ) : Prop := ∃ r ∈ hostRoots cfg, ReflTransGen (BridgeTo cfg) r b

structure BridgeForest : Prop where
  rising : ∀ b, Reachable cfg b → ∀ fn ∈ functions cfg b, isBridge cfg fn → b < secondary cfg fn
  distinct : ∀ b c, Reachable cfg b → Reachable cfg c → ∀ fn ∈ functions cfg b, ∀ fn' ∈ functions cfg c,
    isBridge cfg fn → isBridge cfg fn' → secondary cfg fn = secondary cfg fn' → fn = fn'
  roots : ∀ b, Reachable cfg b → ∀ fn ∈ functions cfg b, isBridge cfg fn → secondary cfg fn ∉ hostRoots cfg

/-- No bus that is scanned for a function of 0:0 without a host bridge leads to functions that can be
reached. -/
def NoSecondRoute : Prop :=
  ∀ f ∈ otherRoots cfg, ∀ b, ReflTransGen (Leads (functions cfg) (behind cfg)) f b → Reachable cfg b →
    functions cfg b = []

end Forest

variable {cfg : Config} {fn : Fn} {bus dev b c n r : ℕ}

lemma mem_deviceFunctions (h : fn ∈ deviceFunctions cfg bus dev) : fn.bus = bus ∧ fn.dev = dev := by
  unfold deviceFunctions at h
  split_ifs at h with h0 hm
  · rcases List.mem_cons.1 h with rfl | h
    · exact ⟨rfl, rfl⟩
    · obtain ⟨f, -, rfl⟩ := List.mem_map.1 (List.mem_of_mem_filter h)
      exact ⟨rfl, rfl⟩
  · obtain rfl := List.mem_singleton.1 h
    exact ⟨rfl, rfl⟩
  · cases h

lemma bus_of_mem_functions (h : fn ∈ functions cfg bus) : fn.bus = bus := by
  obtain ⟨dev, -, h⟩ := List.mem_flatMap.1 h
  exact (mem_deviceFunctions h).1

lemma nodup_deviceFunctions : (deviceFunctions cfg bus dev).Nodup := by
  have hinj : Function.Injective (Fn.mk bus dev) := fun a b h => (Fn.mk.inj h).2.2
  unfold deviceFunctions
  split_ifs
  · refine List.nodup_cons.2 ⟨fun h => ?_, ((List.nodup_range' 1).map hinj).filter _⟩
    obtain ⟨f, hf, heq⟩ := List.mem_map.1 (List.mem_of_mem_filter h)
    obtain rfl := (Fn.mk.inj heq).2.2
    exact absurd (List.mem_range'.1 hf) (by omega)
  · exact List.nodup_singleton _
  · exact List.nodup_nil

lemma nodup_functions : (functions cfg bus).Nodup := by
  rw [functions, List.nodup_flatMap]
  refine ⟨fun dev _ => nodup_deviceFunctions, List.nodup_range.imp fun {d e} hne fn hd he => hne ?_⟩
  exact (mem_deviceFunctions hd).2.symm.trans (mem_deviceFunctions he).2

lemma functions_rising : Rising (functions cfg) (behind cfg) 256 where
  lt _ _ hfn _ hc := bus_of_mem_functions hfn ▸ (behind_bounds hc).1
  bounded _ _ _ _ hc := (behind_bounds hc).2
  owner _ _ _ hb hc := (bus_of_mem_functions hb).symm.trans (bus_of_mem_functions hc)

lemma bridgeTo_of_leads (h : Leads (functions cfg) (behind cfg) b c) : BridgeTo cfg b c := by
  obtain ⟨fn, hfn, hc⟩ := h
  unfold behind at hc
  split_ifs at hc with hb
  exact ⟨fn, hfn, hb.1, Option.some.inj hc⟩

lemma isBridge_of_behind (h : behind cfg fn = some c) : isBridge cfg fn ∧ secondary cfg fn = c := by
  unfold behind at h
  split_ifs at h with hb
  exact ⟨hb.1, Option.some.inj h⟩

lemma nodup_scannedRoots : (scannedRoots cfg).Nodup := by
  unfold scannedRoots
  split_ifs
  · refine List.nodup_cons.2 ⟨fun h => ?_, (List.nodup_range' 1).filter _⟩
    exact absurd (List.mem_range'.1 (List.mem_of_mem_filter h)) (by omega)
  · exact List.nodup_singleton 0

lemma lt_of_mem_scannedRoots (h : r ∈ scannedRoots cfg) : r < 256 := by
  unfold scannedRoots at h
  split_ifs at h
  · rcases List.mem_cons.1 h with rfl | h
    · decide
    · have := List.mem_range'.1 (List.mem_of_mem_filter h)
      omega
  · rw [List.mem_singleton.1 h]
    decide

section Once

variable (hf : BridgeForest cfg)
include hf

lemma BridgeForest.branching : Branching (functions cfg) (behind cfg) (Reachable cfg) where
  closed b c hb hbc := by
    obtain ⟨r, hr, hrb⟩ := hb
    exact ⟨r, hr, hrb.tail (bridgeTo_of_leads hbc)⟩
  unique b c d hb hc fn hfn fn' hfn' hd hd' := by
    obtain ⟨h₁, h₂⟩ := isBridge_of_behind hd
    obtain ⟨h₁', h₂'⟩ := isBridge_of_behind hd'
    exact hf.distinct b c hb hc fn hfn fn' hfn' h₁ h₁' (h₂.trans h₂'.symm)

lemma BridgeForest.exists_root (h : Reachable cfg b) :
    ∃ r ∈ hostRoots cfg, ReflTransGen (Leads (functions cfg) (behind cfg)) r b := by
  obtain ⟨r, hr, hrb⟩ := h
  refine ⟨r, hr, ?_⟩
  induction hrb with
  | refl => exact .refl
  | @tail b c hrb hbc ih =>
    obtain ⟨fn, hfn, hbridge, rfl⟩ := hbc
    have hlt := hf.rising b ⟨r, hr, hrb⟩ fn hfn hbridge
    exact ih.tail ⟨fn, hfn, if_pos ⟨hbridge, (bus_of_mem_functions hfn).symm ▸ hlt⟩⟩

lemma BridgeForest.not_leads (hr : r ∈ hostRoots cfg) (hb : Reachable cfg b) :
    ¬ Leads (functions cfg) (behind cfg) b r := by
  rintro ⟨fn, hfn, hc⟩
  obtain ⟨h₁, rfl⟩ := isBridge_of_behind hc
  exact hf.roots b hb fn hfn h₁ hr

lemma BridgeForest.nodup : ((hostRoots cfg).flatMap (visit (functions cfg) (behind cfg) n)).Nodup := by
  have hroot {r : ℕ} (hr : r ∈ hostRoots cfg) : Reachable cfg r := ⟨r, hr, .refl⟩
  rw [List.nodup_flatMap]
  refine ⟨fun r hr => hf.branching.nodup_visit functions_rising (fun _ => nodup_functions) (hroot hr), ?_⟩
  refine (nodup_scannedRoots.filter _).imp_of_mem fun {r s} hr hs hne => ?_
  exact hf.branching.disjoint_roots functions_rising (hroot hr) (hroot hs) hne
    (fun b hb => hf.not_leads hr hb) (fun b hb => hf.not_leads hs hb)

lemma BridgeForest.mem (hb : Reachable cfg b) (hfn : fn ∈ functions cfg b) :
    fn ∈ (hostRoots cfg).flatMap (visit (functions cfg) (behind cfg) 256) := by
  obtain ⟨r, hr, hrb⟩ := hf.exists_root hb
  have hlt := lt_of_mem_scannedRoots (List.mem_of_mem_filter hr)
  exact List.mem_flatMap.2 ⟨r, hr, (mem_visit functions_rising (by omega) hlt).2 ⟨b, hrb, hfn⟩⟩

lemma BridgeForest.count (hb : Reachable cfg b) (hfn : fn ∈ functions cfg b) :
    ((scannedRoots cfg).flatMap (visit (functions cfg) (behind cfg) 256)).count fn =
      1 + ((otherRoots cfg).flatMap (visit (functions cfg) (behind cfg) 256)).count fn := by
  have hperm := ((scannedRoots cfg).filter_append_perm (isHostRoot cfg)).flatMap_right
    (visit (functions cfg) (behind cfg) 256)
  rw [← hperm.count_eq, List.flatMap_append, List.count_append]
  exact congrArg (· + _) (List.count_eq_one_of_mem hf.nodup (hf.mem hb hfn))

lemma BridgeForest.count_eq_one_iff :
    (∀ b, Reachable cfg b → ∀ fn ∈ functions cfg b,
      ((scannedRoots cfg).flatMap (visit (functions cfg) (behind cfg) 256)).count fn = 1) ↔
      NoSecondRoute cfg := by
  constructor
  · intro h f hfr b hfb hb
    refine List.eq_nil_iff_forall_not_mem.2 fun fn hfn => ?_
    have hone := h b hb fn hfn
    rw [hf.count hb hfn] at hone
    have hlt := lt_of_mem_scannedRoots (List.mem_of_mem_filter hfr)
    have hmem : fn ∈ (otherRoots cfg).flatMap (visit (functions cfg) (behind cfg) 256) :=
      List.mem_flatMap.2 ⟨f, hfr, (mem_visit functions_rising (by omega) hlt).2 ⟨b, hfb, hfn⟩⟩
    have := List.count_pos_iff.2 hmem
    omega
  · intro h b hb fn hfn
    rw [hf.count hb hfn]
    refine Nat.add_eq_left.2 (List.count_eq_zero.2 fun hmem => ?_)
    obtain ⟨f, hfr, hvisit⟩ := List.mem_flatMap.1 hmem
    obtain ⟨c, hfc, hc⟩ := exists_of_mem_visit hvisit
    obtain rfl := (bus_of_mem_functions hfn).symm.trans (bus_of_mem_functions hc)
    exact List.ne_nil_of_mem hfn (h f hfr _ hfc hb)

end Once

end MyOS.Drivers.Pci

/-! The probes of the drivers, and `pci_init` as a whole. -/

namespace MyOS.Drivers.Pci

open Library Traversal

section Probes

variable {probe : List (String × Fn) → PciDriver → PciDevice → Bool} {drv : PciDriver} {drivers before after : List PciDriver}
  {d : PciDevice} {devices : List PciDevice} {s : PciDevice × List (String × Fn)} {b : Bound}

lemma bindOne_fn : (bindOne probe drv s).1.fn = s.1.fn := by
  unfold bindOne
  dsimp only
  split_ifs <;> rfl

variable (probe drv s) in
lemma bindOne_probes : ∃ l, l.Sublist [(drv.name, s.1.fn)] ∧ (bindOne probe drv s).2 = s.2 ++ l := by
  unfold bindOne
  dsimp only
  split_ifs
  · exact ⟨[], List.nil_sublist _, by simp⟩
  all_goals exact ⟨_, List.Sublist.refl _, rfl⟩

lemma tryBind_fn : (tryBind probe drivers s).1.fn = s.1.fn := by
  induction drivers generalizing s with
  | nil => rfl
  | cons drv drivers ih => exact ih.trans bindOne_fn

variable (probe drivers s) in
lemma tryBind_probes : ∃ l, l.Sublist (drivers.map fun drv => (drv.name, s.1.fn)) ∧
    (tryBind probe drivers s).2 = s.2 ++ l := by
  induction drivers generalizing s with
  | nil => exact ⟨[], List.nil_sublist _, by simp [tryBind]⟩
  | cons drv drivers ih =>
    obtain ⟨l, hl, hone⟩ := bindOne_probes probe drv s
    obtain ⟨l', hl', hrest⟩ := ih (bindOne probe drv s)
    rw [bindOne_fn] at hl'
    refine ⟨l ++ l', hl.append hl', ?_⟩
    rw [← List.append_assoc, ← hone]
    exact hrest

variable (b devices) in
lemma forEach_probes (bind : PciDevice × List (String × Fn) → PciDevice × List (String × Fn))
    (part : Fn → List (String × Fn)) (hfn : ∀ s, (bind s).1.fn = s.1.fn)
    (hprobes : ∀ s, ∃ l, l.Sublist (part s.1.fn) ∧ (bind s).2 = s.2 ++ l) :
    (b.forEach bind devices).devices.map (·.fn) = devices.map (·.fn) ∧
      (b.forEach bind devices).drivers = b.drivers ∧
        ∃ l, l.Sublist ((devices.map (·.fn)).flatMap part) ∧ (b.forEach bind devices).probes = b.probes ++ l := by
  have hfold (b : Bound) : ∃ b', devices.foldl (fun b d =>
      { b with
        devices := b.devices ++ [(bind (d, b.probes)).1]
        probes := (bind (d, b.probes)).2 }) b = b' ∧
      b'.devices.map (·.fn) = b.devices.map (·.fn) ++ devices.map (·.fn) ∧ b'.drivers = b.drivers ∧
      ∃ l, l.Sublist ((devices.map (·.fn)).flatMap part) ∧ b'.probes = b.probes ++ l := by
    induction devices generalizing b with
    | nil => exact ⟨b, rfl, by simp, rfl, [], List.nil_sublist _, by simp⟩
    | cons d devices ih =>
      obtain ⟨b', hb', hdev, hdrv, l', hl', hpro⟩ := ih
        { b with devices := b.devices ++ [(bind (d, b.probes)).1], probes := (bind (d, b.probes)).2 }
      obtain ⟨l, hl, hone⟩ := hprobes (d, b.probes)
      refine ⟨b', hb', ?_, hdrv, l ++ l', ?_, ?_⟩
      · simpa [hfn] using hdev
      · simpa using hl.append hl'
      · rw [hpro, hone, List.append_assoc]
  obtain ⟨b', hb', hdev, hdrv, hpro⟩ := hfold { b with devices := [] }
  rw [Bound.forEach, hb']
  exact ⟨by simpa using hdev, hdrv, hpro⟩

variable (probe after b) in
lemma registerAll_probes : ((after.foldl (fun b drv => b.register probe drv) b).devices.map (·.fn) =
      b.devices.map (·.fn)) ∧
    ∃ l, l.Sublist (after.flatMap fun drv => (b.devices.map (·.fn)).map fun fn => (drv.name, fn)) ∧
      (after.foldl (fun b drv => b.register probe drv) b).probes = b.probes ++ l := by
  induction after generalizing b with
  | nil => exact ⟨rfl, [], List.nil_sublist _, by simp⟩
  | cons drv after ih =>
    obtain ⟨hdev, -, l, hl, hpro⟩ := forEach_probes b.devices
      { b with drivers := b.drivers ++ [drv] } (bindOne probe drv) (fun fn => [(drv.name, fn)])
      (fun _ => bindOne_fn) (bindOne_probes probe drv)
    obtain ⟨hdev', l', hl', hpro'⟩ := ih (b.register probe drv)
    have hreg : (b.register probe drv).devices.map (·.fn) = b.devices.map (·.fn) := hdev
    rw [hreg] at hdev' hl'
    refine ⟨hdev', l ++ l', ?_, ?_⟩
    · rw [List.flatMap_cons]
      refine List.Sublist.append ?_ hl'
      rwa [List.map_eq_flatMap (f := fun fn => (drv.name, fn))]
    · rw [List.foldl_cons, hpro', ← List.append_assoc]
      exact congrArg (· ++ l') hpro

variable (probe before drivers) in
lemma registerAll_before : before.foldl (fun (b : Bound) drv => b.register probe drv) { drivers := drivers } =
    { drivers := drivers ++ before } := by
  induction before generalizing drivers with
  | nil => simp
  | cons drv before ih =>
    rw [List.foldl_cons]
    exact (ih (drivers ++ [drv])).trans (by simp)

variable (probe before devices after) in
lemma run_probes : (Bound.run probe before devices after).probes.Sublist
    ((devices.map (·.fn)).flatMap (fun fn => before.map fun drv => (drv.name, fn)) ++
      after.flatMap fun drv => (devices.map (·.fn)).map fun fn => (drv.name, fn)) := by
  have hbefore := registerAll_before probe [] before
  obtain ⟨hdev, -, l, hl, hpro⟩ := forEach_probes devices { drivers := before }
    (tryBind probe before) (fun fn => before.map fun drv => (drv.name, fn)) (fun _ => tryBind_fn)
    (tryBind_probes probe before)
  obtain ⟨-, l', hl', hpro'⟩ := registerAll_probes probe after
    (({ drivers := before } : Bound).bindAll probe devices)
  have hdev' : (({ drivers := before } : Bound).bindAll probe devices).devices.map (·.fn) =
      devices.map (·.fn) := hdev
  rw [hdev'] at hl'
  have hrun : (Bound.run probe before devices after).probes = l ++ l' := by
    rw [Bound.run, hbefore, List.nil_append, hpro']
    exact congrArg (· ++ l') hpro
  rw [hrun]
  exact hl.append hl'

lemma count_pairs {x : Fn} {name : String} {fns : List Fn} :
    (fns.flatMap fun fn => before.map fun drv => (drv.name, fn)).count (name, x) =
      fns.count x * (before.map (·.name)).count name := by
  have hone (fn : Fn) : (before.map fun drv => (drv.name, fn)).count (name, x) =
      if fn = x then (before.map (·.name)).count name else 0 := by
    induction before with
    | nil => simp
    | cons drv before ih =>
      rw [List.map_cons, List.count_cons, ih, List.map_cons, List.count_cons]
      by_cases hx : fn = x <;> by_cases hn : drv.name = name <;> simp [hx, hn]
  induction fns with
  | nil => simp
  | cons fn fns ih =>
    rw [List.flatMap_cons, List.count_append, hone, ih, List.count_cons, Nat.add_mul]
    by_cases hx : fn = x <;> simp [hx, Nat.add_comm]

lemma perm_pairs {fns : List Fn} {drvs : List PciDriver} :
    (drvs.flatMap fun drv => fns.map fun fn => (drv.name, fn)).Perm
      (fns.flatMap fun fn => drvs.map fun drv => (drv.name, fn)) := by
  induction drvs with
  | nil => simp
  | cons drv drvs ih =>
    rw [List.flatMap_cons]
    exact (ih.append_left _).trans (List.map_append_flatMap_perm fns _ _)

lemma count_probes_le {x : Fn} {name : String} (hx : (devices.map (·.fn)).count x = 1)
    (hnames : ((before ++ after).map (·.name)).Nodup) :
    (Bound.run probe before devices after).probes.count (name, x) ≤ 1 := by
  have hle := (run_probes probe before after devices).count_le (name, x)
  rw [List.count_append, perm_pairs.count_eq, count_pairs, count_pairs, hx, Nat.one_mul, Nat.one_mul,
    ← List.count_append, ← List.map_append] at hle
  exact hle.trans (List.nodup_iff_count_le_one.1 hnames name)

end Probes

section Init

variable {w : Wiring} {kzalloc : ℕ → Bool} {cfg : Config}

structure Enumerates (w : Wiring) (kzalloc : ℕ → Bool) (cfg : Config) : Prop where
  ends : ∃ s, pciScan w kzalloc cfg = some s
  listed : ∀ s ∈ pciScan w kzalloc cfg, (∀ n, kzalloc n = true) → BridgeForest cfg →
    ∀ b, Reachable cfg b → ∀ fn ∈ functions cfg b, (s.devices.map (·.fn)).count fn = 1
  restored : ∀ s ∈ pciScan w kzalloc cfg, ∀ fn,
    (∀ i < 6, s.cfg fn (barOffset i) = cfg fn (barOffset i)) ∧ pciRead16 s.cfg fn 4 = pciRead16 cfg fn 4
  probed : ∀ s ∈ pciScan w kzalloc cfg, (∀ n, kzalloc n = true) → BridgeForest cfg →
    ∀ b, Reachable cfg b → ∀ fn ∈ functions cfg b, ∀ probe before after,
      ((before ++ after).map PciDriver.name).Nodup →
        ∀ name, (Bound.run probe before s.devices after).probes.count (name, fn) ≤ 1

lemma SameConfig.restored {cfg' : Config} {fn : Fn} (h : SameConfig cfg cfg') :
    (∀ i < 6, cfg' fn (barOffset i) = cfg fn (barOffset i)) ∧ pciRead16 cfg' fn 4 = pciRead16 cfg fn 4 := by
  refine ⟨fun i _ => h.other fn _ (by unfold barOffset; omega), ?_⟩
  ext i hi
  simpa [pciRead16, pciRead32, hi] using h.command fn i hi

theorem enumerates_iff (w : Wiring) (kzalloc : ℕ → Bool) (cfg : Config) : Enumerates w kzalloc cfg ↔
    ((∀ n, kzalloc n = true) → BridgeForest cfg → NoSecondRoute cfg) := by
  obtain ⟨s, hs, hsame, hlist⟩ := pciScan_scans w kzalloc cfg
  constructor
  · intro h hmem hf
    refine hf.count_eq_one_iff.1 fun b hb fn hfn => ?_
    rw [← hlist hmem]
    exact h.listed s hs hmem hf b hb fn hfn
  · intro h
    have honce (hmem : ∀ n, kzalloc n = true) (hf : BridgeForest cfg) (b : ℕ) (hb : Reachable cfg b) (fn : Fn)
        (hfn : fn ∈ functions cfg b) : (s.devices.map (·.fn)).count fn = 1 := by
      rw [hlist hmem]
      exact hf.count_eq_one_iff.2 (h hmem hf) b hb fn hfn
    refine ⟨⟨s, hs⟩, fun t ht => ?_, fun t ht fn => ?_, fun t ht => ?_⟩ <;>
      cases hs.symm.trans ht
    · exact honce
    · exact hsame.restored
    · exact fun hmem hf b hb fn hfn probe before after hnames name =>
        count_probes_le (honce hmem hf b hb fn hfn) hnames

def fixedWiring : Wiring where
  rw _ _ := 0
  clear _ _ := 0
  bars _ _ _ := rfl
  command _ _ _ := BitVec.getLsbD_zero

def bridgedConfig : Config := fun fn off =>
  if fn = ⟨0, 0, 0⟩ then if off = 0 then 0x29c08086 else if off = 8 then 0x06000000 else 0x00800000
  else if fn = ⟨0, 0, 1⟩ then
    if off = 0 then 0x29c18086 else if off = 8 then 0x06040000 else if off = 0x18 then 0x00010100 else 0x00810000
  else if fn = ⟨1, 0, 0⟩ then if off = 0 then 0x29228086 else if off = 8 then 0x01060100 else 0
  else 0xffffffff

lemma isBridge_bridged {fn : Fn} (h : isBridge bridgedConfig fn) : fn = ⟨0, 0, 1⟩ := by
  by_contra hne
  by_cases h₀ : fn = ⟨0, 0, 0⟩
  · subst h₀
    cases h
  by_cases h₁ : fn = ⟨1, 0, 0⟩
  · subst h₁
    cases h
  · simp [isBridge, found, pciRead32, bridgedConfig, hne, h₀, h₁] at h

lemma bridgeForest_bridged : BridgeForest bridgedConfig where
  rising b _ fn hfn hbridge := by
    obtain rfl := isBridge_bridged hbridge
    rw [← bus_of_mem_functions hfn]
    decide
  distinct _ _ _ _ _ _ _ _ h h' _ := (isBridge_bridged h).trans (isBridge_bridged h').symm
  roots b _ fn _ hbridge := by
    obtain rfl := isBridge_bridged hbridge
    decide

theorem not_enumerates_bridged : ¬ Enumerates fixedWiring (fun _ => true) bridgedConfig := by
  intro h
  obtain ⟨s, hs, -, hlist⟩ := pciScan_scans fixedWiring (fun _ => true) bridgedConfig
  have hreach : Reachable bridgedConfig 1 :=
    ⟨0, by decide +kernel, .single ⟨⟨0, 0, 1⟩, by decide +kernel, by decide +kernel, by decide +kernel⟩⟩
  have hone := h.listed s hs (fun _ => rfl) bridgeForest_bridged 1 hreach ⟨1, 0, 0⟩ (by decide +kernel)
  rw [hlist fun _ => rfl] at hone
  exact absurd hone (by decide +kernel)

end Init

end MyOS.Drivers.Pci
