import MyOS.Memory.Memblock
import MyOS.Memory.PageTable

/-! The direct map: physical memory at `HHDM_BASE`, in the largest pages that fit. -/

namespace MyOS.Memory

open Boot Function

def span : ℕ → ℕ
  | 0 => pageSize
  | h + 1 => span h * ptes

/-- An entry of a table, `h` levels above the entries of 4 KiB pages: a page of `span h` bytes, or the table of
the next level. -/
inductive Slot : ℕ → Type
  | absent {h : ℕ} : Slot h
  | page {h : ℕ} (phys flags : ℕ) : Slot h
  | table {h : ℕ} (slots : ℕ → Slot h) : Slot (h + 1)

namespace Slot

def translate : {h : ℕ} → Slot h → ℕ → Option (ℕ × ℕ)
  | _, .absent, _ => none
  | h, .page phys flags, v => some (phys / span h * span h + v % span h, flags)
  | h + 1, .table slots, v => (slots (v / span h % ptes)).translate v

def isAbsent {h : ℕ} : Slot h → Bool
  | .absent => true
  | _ => false

def nextLevel {h : ℕ} : Slot (h + 1) → ℕ → Option ((ℕ → Slot h) × ℕ)
  | .page _ _, _ => none
  | .absent, 0 => none
  | .absent, n + 1 => some (fun _ => .absent, n)
  | .table slots, n => some (slots, n)

def large (page1gb : Bool) (h : ℕ) : Bool := h = 1 || page1gb && h = 2

/-- One round of `map_range` from an entry down, with the size of the page; `none` is its panic. -/
def mapStep (page1gb : Bool) (flags virt phys left : ℕ) : {h : ℕ} → Slot h → ℕ → Option (Slot h × ℕ × ℕ)
  | 0, _, n => some (.page phys flags, span 0, n)
  | h + 1, s, n =>
    if large page1gb (h + 1) ∧ virt % span (h + 1) = 0 ∧ phys % span (h + 1) = 0 ∧ span (h + 1) ≤ left ∧
        s.isAbsent then
      some (.page phys flags, span (h + 1), n)
    else
      (s.nextLevel n).bind fun r =>
        let i := virt / span h % ptes
        (mapStep page1gb flags virt phys left (r.1 i) r.2).map fun q =>
          (.table (update r.1 i q.1), q.2)

def mapLoop (page1gb : Bool) (flags stop : ℕ) : ℕ → ℕ → ℕ → Slot 4 → ℕ → Option (Slot 4 × ℕ)
  | 0, _, _, t, n => some (t, n)
  | k + 1, virt, phys, t, n =>
    if virt < stop then
      (t.mapStep page1gb flags virt phys (stop - virt) n).bind fun r =>
        mapLoop page1gb flags stop k (virt + r.2.1) (phys + r.2.1) r.1 r.2.2
    else some (t, n)

def mapRange (page1gb : Bool) (flags : ℕ) (s : Slot 4 × ℕ) (virt phys size : ℕ) : Option (Slot 4 × ℕ) :=
  let stop := (virt + size) % 2 ^ 64
  mapLoop page1gb flags stop (stop - virt) virt phys s.1 s.2

end Slot

def hhdmSize : ℕ := vmallocStart - hhdmBase

def directMapped (r : MemRegion) : Bool :=
  r.type = .usable || r.type = .acpiReclaim || r.type = .acpiNvs

def directStart (r : MemRegion) : ℕ := max (alignDown r.base pageSize) mib
def directStop (r : MemRegion) : ℕ := alignUp ((r.base + r.len) % 2 ^ 64) pageSize

def mapRegion (page1gb : Bool) (flags : ℕ) (s : Slot 4 × ℕ) (r : MemRegion) : Option (Slot 4 × ℕ) :=
  if !directMapped r || directStop r ≤ mib then some s
  else Slot.mapRange page1gb flags s ((hhdmBase + directStart r) % 2 ^ 64) (directStart r)
    ((directStop r + (2 ^ 64 - directStart r)) % 2 ^ 64)

def kernelTables : Slot 4 := .table fun i => if ptes / 2 ≤ i then .table fun _ => .absent else .absent

def directMap (page1gb : Bool) (flags : ℕ) (mmap : List MemRegion) (n : ℕ) : Option (Slot 4 × ℕ) :=
  (Slot.mapRange page1gb flags (kernelTables, n) hhdmBase 0 mib).bind fun s =>
    mmap.foldlM (mapRegion page1gb flags) s

def vmmPhysIsDirectMapped (mmap : List MemRegion) (phys len : ℕ) : Bool :=
  let stop := (phys + len) % 2 ^ 64
  decide (stop ≤ mib) || mmap.any fun r =>
    directMapped r && decide (r.base ≤ phys) && decide (stop ≤ (r.base + r.len) % 2 ^ 64)

section Span

variable {h a b c : ℕ}

lemma span_pos (h : ℕ) : 0 < span h := by
  induction h with
  | zero => decide
  | succ h ih => exact Nat.mul_pos ih (by decide)

lemma div_span_succ (h v : ℕ) : v / span (h + 1) = v / span h / ptes := by
  rw [span, Nat.div_div_eq_div_mul]

lemma pageSize_dvd_span (h : ℕ) : pageSize ∣ span h := by
  induction h with
  | zero => exact dvd_rfl
  | succ h ih => exact ih.mul_right _

/-- How often one comes into another entry on the way from `a` to `b`, on all levels up to `h`. -/
def crossings : ℕ → ℕ → ℕ → ℕ
  | 0, _, _ => 0
  | h + 1, a, b => crossings h a b + (b / span (h + 1) - a / span (h + 1))

lemma crossings_add (hab : a ≤ b) (hbc : b ≤ c) : crossings h a b + crossings h b c = crossings h a c := by
  induction h with
  | zero => rfl
  | succ h ih =>
    have h₁ := Nat.div_le_div_right (c := span (h + 1)) hab
    have h₂ := Nat.div_le_div_right (c := span (h + 1)) hbc
    simp only [crossings]
    omega

lemma le_crossings (hab : a / span h < b / span h) : h ≤ crossings h a b := by
  induction h with
  | zero => exact Nat.zero_le _
  | succ h ih =>
    rw [crossings]
    rw [div_span_succ, div_span_succ] at hab ⊢
    have := ih (lt_of_not_ge fun hle => hab.not_ge (Nat.div_le_div_right hle))
    omega

end Span

namespace Slot

variable {page1gb : Bool} {flags virt phys left stop size n n' h : ℕ}

def missing : {h : ℕ} → Slot h → ℕ → ℕ
  | h, .absent, _ => h
  | _, .page _ _, _ => 0
  | h + 1, .table slots, v => (slots (v / span h % ptes)).missing v

lemma missing_le (s : Slot h) (v : ℕ) : s.missing v ≤ h := by
  induction s with
  | absent => exact le_rfl
  | page => exact Nat.zero_le _
  | table slots ih => exact (ih _).trans (Nat.le_succ _)

lemma nextLevel_translate {s : Slot (h + 1)} {slots : ℕ → Slot h} (hs : s.nextLevel n = some (slots, n')) (v : ℕ) :
    (slots (v / span h % ptes)).translate v = s.translate v := by
  cases s with
  | page => cases hs
  | absent =>
    cases n with
    | zero => cases hs
    | succ n =>
      cases hs
      rfl
  | table t =>
    cases hs
    rfl

structure Maps (flags virt phys left size : ℕ) (s s' : Slot h) : Prop where
  pos : 0 < size
  pages : pageSize ∣ size
  fits : size ≤ left
  inside : ∀ v, virt ≤ v → v < virt + size → v / span h = virt / span h
  translate : ∀ v, v / span h = virt / span h →
    s'.translate v = if virt ≤ v ∧ v < virt + size then some (phys + (v - virt), flags) else s.translate v
  missing : (virt + size) / span h = virt / span h → s'.missing (virt + size) ≤ crossings h virt (virt + size)

lemma Maps.whole (s : Slot h) (hv : virt % span h = 0) (hp : phys % span h = 0) (hl : span h ≤ left) :
    Maps flags virt phys left (span h) s (.page phys flags) := by
  have hpos := span_pos h
  have hin : ∀ v, v / span h = virt / span h ↔ virt ≤ v ∧ v < virt + span h := by
    intro v
    have hvirt := Nat.div_mul_cancel (Nat.dvd_of_mod_eq_zero hv)
    rw [Nat.div_eq_iff hpos, hvirt]
    omega
  refine ⟨hpos, pageSize_dvd_span h, hl, fun v h₁ h₂ => (hin v).2 ⟨h₁, h₂⟩, fun v he => ?_, fun he => ?_⟩
  · have hmod := Nat.div_add_mod v (span h)
    rw [he, Nat.mul_div_cancel' (Nat.dvd_of_mod_eq_zero hv)] at hmod
    rw [if_pos ((hin v).1 he), Slot.translate, Nat.div_mul_cancel (Nat.dvd_of_mod_eq_zero hp), ← hmod,
      Nat.add_sub_cancel_left, Nat.add_mod, hv, Nat.zero_add, Nat.mod_mod, Nat.mod_mod]
  · exact absurd ((hin _).1 he).2 (Nat.lt_irrefl _)

lemma Maps.below {s : Slot (h + 1)} {slots : ℕ → Slot h} {c : Slot h}
    (hs : ∀ v, (slots (v / span h % ptes)).translate v = s.translate v)
    (hc : Maps flags virt phys left size (slots (virt / span h % ptes)) c) :
    Maps flags virt phys left size s (.table (update slots (virt / span h % ptes) c)) := by
  have hdigit : ∀ v, v / span (h + 1) = virt / span (h + 1) → v / span h % ptes = virt / span h % ptes →
      v / span h = virt / span h := by
    intro v he hd
    rw [div_span_succ, div_span_succ] at he
    rw [← Nat.div_add_mod (v / span h) ptes, he, hd, Nat.div_add_mod]
  refine ⟨hc.pos, hc.pages, hc.fits, fun v h₁ h₂ => ?_, fun v he => ?_, fun he => ?_⟩
  · rw [div_span_succ, div_span_succ, hc.inside v h₁ h₂]
  · rw [Slot.translate]
    by_cases hd : v / span h % ptes = virt / span h % ptes
    · rw [hd, update_self, hc.translate v (hdigit v he hd), ← hd, hs]
    · rw [update_of_ne hd, hs, if_neg fun hr => hd (by rw [hc.inside v hr.1 hr.2])]
  · rw [Slot.missing, crossings]
    by_cases hd : (virt + size) / span h % ptes = virt / span h % ptes
    · rw [hd, update_self]
      exact (hc.missing (hdigit _ he hd)).trans (Nat.le_add_right _ _)
    · rw [update_of_ne hd]
      have hlt : virt / span h < (virt + size) / span h :=
        lt_of_le_of_ne (Nat.div_le_div_right (Nat.le_add_right _ _)) fun hn => hd (by rw [hn])
      exact (missing_le _ _).trans ((le_crossings hlt).trans (Nat.le_add_right _ _))

lemma mapStep_maps {s s' : Slot h} (hs : s.mapStep page1gb flags virt phys left n = some (s', size, n'))
    (hv : pageSize ∣ virt) (hp : pageSize ∣ phys) (hl : pageSize ≤ left) :
    Maps flags virt phys left size s s' := by
  induction h generalizing n n' with
  | zero =>
    cases hs
    exact .whole s (Nat.mod_eq_zero_of_dvd hv) (Nat.mod_eq_zero_of_dvd hp) hl
  | succ h ih =>
    rw [mapStep] at hs
    split at hs
    · rename_i hlarge
      obtain ⟨-, hv, hp, hl, -⟩ := hlarge
      cases hs
      exact .whole s hv hp hl
    · obtain ⟨⟨slots, n₁⟩, hnext, hs⟩ := Option.bind_eq_some_iff.1 hs
      obtain ⟨⟨c, size, n₂⟩, hc, hs⟩ := Option.map_eq_some_iff.1 hs
      cases hs
      exact (ih hc).below (nextLevel_translate hnext)

lemma mapStep_runs {s : Slot h} (hs : s.translate virt = none) (hn : s.missing virt ≤ n) :
    ∃ s' size n', s.mapStep page1gb flags virt phys left n = some (s', size, n') ∧ n ≤ n' + s.missing virt := by
  induction h generalizing n with
  | zero => exact ⟨_, _, n, rfl, Nat.le_add_right _ _⟩
  | succ h ih =>
    rw [mapStep]
    split
    · exact ⟨_, _, n, rfl, Nat.le_add_right _ _⟩
    · cases s with
      | page => cases hs
      | absent =>
        obtain ⟨m, rfl⟩ : ∃ m, n = m + 1 := ⟨n - 1, by simp only [missing] at hn; omega⟩
        obtain ⟨c, size, n', hc, hle⟩ := ih (s := .absent) (n := m) rfl (Nat.le_of_succ_le_succ hn)
        exact ⟨_, size, n', Option.bind_eq_some_iff.2 ⟨(_, m), rfl, Option.map_eq_some_iff.2 ⟨_, hc, rfl⟩⟩,
          Nat.succ_le_succ hle⟩
      | table slots =>
        obtain ⟨c, size, n', hc, hle⟩ := ih (s := slots (virt / span h % ptes)) hs hn
        exact ⟨_, size, n', Option.bind_eq_some_iff.2 ⟨(slots, n), rfl, Option.map_eq_some_iff.2 ⟨_, hc, rfl⟩⟩,
          hle⟩

section Loop

variable {t t' : Slot 4} {w k rest : ℕ}

lemma mapStep_before (ht : t.mapStep page1gb flags virt phys (stop - virt) n = some (t', size, n'))
    (hlt : virt < stop) (hv : pageSize ∣ virt) (hp : pageSize ∣ phys) (hs : pageSize ∣ stop) :
    Maps flags virt phys (stop - virt) size t t' :=
  mapStep_maps ht hv hp (Nat.le_of_dvd (Nat.sub_pos_of_lt hlt) (Nat.dvd_sub hs hv))

lemma mapLoop_maps (hr : mapLoop page1gb flags stop k virt phys t n = some (t', n')) (hk : stop ≤ virt + k)
    (hv : pageSize ∣ virt) (hp : pageSize ∣ phys) (hs : pageSize ∣ stop)
    (hw : ∀ v, virt ≤ v → v < stop → v / span 4 = w) (v : ℕ) (hvw : v / span 4 = w) :
    t'.translate v = if virt ≤ v ∧ v < stop then some (phys + (v - virt), flags) else t.translate v := by
  induction k generalizing virt phys t n with
  | zero =>
    cases hr
    rw [if_neg (by omega)]
  | succ k ih =>
    rw [mapLoop] at hr
    split at hr
    · rename_i hlt
      obtain ⟨⟨t₁, size, n₁⟩, hstep, hr⟩ := Option.bind_eq_some_iff.1 hr
      dsimp only at hr
      have hm := mapStep_before hstep hlt hv hp hs
      have hpos := hm.pos
      have hfits := hm.fits
      have hrest := ih hr (by omega) (hv.add hm.pages) (hp.add hm.pages) fun v h₁ h₂ => hw v (by omega) h₂
      rw [hrest, hm.translate v (hvw.trans (hw virt le_rfl hlt).symm)]
      grind
    · cases hr
      rw [if_neg (by omega)]

lemma mapLoop_runs (hfree : ∀ v, virt ≤ v → v < stop → t.translate v = none)
    (hn : virt < stop → t.missing virt + crossings 4 virt stop + rest ≤ n) (hrest : rest ≤ n)
    (hv : pageSize ∣ virt) (hp : pageSize ∣ phys) (hs : pageSize ∣ stop)
    (hw : ∀ v, virt ≤ v → v < stop → v / span 4 = w) :
    ∃ s : Slot 4 × ℕ, mapLoop page1gb flags stop k virt phys t n = some s ∧ rest ≤ s.2 := by
  induction k generalizing virt phys t n with
  | zero => exact ⟨_, rfl, hrest⟩
  | succ k ih =>
    rw [mapLoop]
    split
    · rename_i hlt
      have hn := hn hlt
      obtain ⟨t', size, n', hstep, hle⟩ : ∃ t' size n', t.mapStep page1gb flags virt phys (stop - virt) n =
          some (t', size, n') ∧ n ≤ n' + t.missing virt := mapStep_runs (hfree virt le_rfl hlt) (by omega)
      have hm := mapStep_before hstep hlt hv hp hs
      have hpos := hm.pos
      have hfits := hm.fits
      have hhere := hw virt le_rfl hlt
      have hsplit := crossings_add (h := 4) (a := virt) (b := virt + size) (c := stop) (by omega) (by omega)
      rw [hstep, Option.bind_some]
      dsimp only
      refine ih (fun v h₁ h₂ => ?_) (fun hlt' => ?_) (by omega) (hv.add hm.pages) (hp.add hm.pages)
        fun v h₁ h₂ => hw v (by omega) h₂
      · rw [hm.translate v ((hw v (by omega) h₂).trans hhere.symm), if_neg (by omega)]
        exact hfree v (by omega) h₂
      · have hmiss := hm.missing ((hw _ (by omega) hlt').trans hhere.symm)
        omega
    · exact ⟨_, rfl, hrest⟩

end Loop

end Slot

structure Direct (flags : ℕ) (t : Slot 4) (P : ℕ → Prop) : Prop where
  inside : ∀ a, a < hhdmSize → P a → t.translate (hhdmBase + a) = some (a, flags)
  outside : ∀ a, a < hhdmSize → ¬ P a → t.translate (hhdmBase + a) = none

def OnPage (r : MemRegion) (a : ℕ) : Prop := directMapped r = true ∧ directStart r ≤ a ∧ a < directStop r

def tablesFor (base stop : ℕ) : ℕ := 4 + crossings 4 (hhdmBase + base) (hhdmBase + stop)

def regionTables (r : MemRegion) : ℕ := if directMapped r then tablesFor (directStart r) (directStop r) else 0

section Direct

variable {page1gb : Bool} {flags base stop n n' rest : ℕ} {t t' : Slot 4} {P Q : ℕ → Prop} {r : MemRegion}
  {l : List MemRegion}

lemma Direct.congr (h : Direct flags t P) (hPQ : ∀ a, P a ↔ Q a) : Direct flags t Q :=
  ⟨fun a ha hq => h.inside a ha ((hPQ a).2 hq), fun a ha hq => h.outside a ha (mt (hPQ a).1 hq)⟩

lemma kernelTables_direct : Direct flags kernelTables fun _ => False := by
  refine ⟨fun _ _ h => h.elim, fun a _ _ => ?_⟩
  rw [kernelTables, Slot.translate]
  split <;> rfl

lemma hhdmBase_aligned : pageSize ∣ hhdmBase := by decide

lemma hhdm_window : hhdmBase + hhdmSize < 2 ^ 64 := by decide

lemma div_span_four {v : ℕ} (h₁ : hhdmBase ≤ v) (h₂ : v < hhdmBase + hhdmSize) : v / span 4 = 65535 := by
  simp only [span, ptes, pageSize, hhdmSize, vmallocStart, hhdmBase] at *
  omega

section Range

variable (hb : pageSize ∣ base) (hs : pageSize ∣ stop) (hle : base ≤ stop) (hstop : stop ≤ hhdmSize)

include hle hstop in
lemma mapRange_eq (s : Slot 4 × ℕ) : Slot.mapRange page1gb flags s (hhdmBase + base) base (stop - base) =
    Slot.mapLoop page1gb flags (hhdmBase + stop) (stop - base) (hhdmBase + base) base s.1 s.2 := by
  have hmod : (hhdmBase + base + (stop - base)) % 2 ^ 64 = hhdmBase + stop := by
    rw [Nat.add_assoc, Nat.add_sub_cancel' hle]
    exact Nat.mod_eq_of_lt ((Nat.add_le_add_left hstop _).trans_lt hhdm_window)
  rw [Slot.mapRange, hmod, Nat.add_sub_add_left]

include hstop in
lemma in_window (v : ℕ) (h₁ : hhdmBase + base ≤ v) (h₂ : v < hhdmBase + stop) : v / span 4 = 65535 :=
  div_span_four (by omega) (by omega)

include hb hs hle hstop

lemma mapRange_direct (ht : Direct flags t P)
    (hr : Slot.mapRange page1gb flags (t, n) (hhdmBase + base) base (stop - base) = some (t', n')) :
    Direct flags t' fun a => P a ∨ base ≤ a ∧ a < stop := by
  rw [mapRange_eq hle hstop] at hr
  have hmap : ∀ a, a < hhdmSize → t'.translate (hhdmBase + a) =
      if base ≤ a ∧ a < stop then some (a, flags) else t.translate (hhdmBase + a) := by
    intro a ha
    rw [Slot.mapLoop_maps hr (by omega) (hhdmBase_aligned.add hb) hb (hhdmBase_aligned.add hs) (in_window hstop) _
      (div_span_four (Nat.le_add_right _ _) (by omega))]
    grind
  refine ⟨fun a ha h => ?_, fun a ha h => ?_⟩
  · rw [hmap a ha]
    split
    · rfl
    · exact ht.inside a ha (h.resolve_right ‹_›)
  · rw [hmap a ha, if_neg fun hin => h (.inr hin)]
    exact ht.outside a ha fun hp => h (.inl hp)

lemma mapRange_runs (ht : Direct flags t P) (hfree : ∀ a, base ≤ a → a < stop → ¬ P a)
    (hn : tablesFor base stop + rest ≤ n) :
    ∃ s, Slot.mapRange page1gb flags (t, n) (hhdmBase + base) base (stop - base) = some s ∧ rest ≤ s.2 := by
  have hmiss := t.missing_le (hhdmBase + base)
  rw [mapRange_eq hle hstop]
  refine Slot.mapLoop_runs (fun v h₁ h₂ => ?_) (fun _ => ?_) (by omega) (hhdmBase_aligned.add hb) hb
    (hhdmBase_aligned.add hs) (in_window hstop)
  · obtain ⟨a, rfl⟩ := Nat.exists_eq_add_of_le (show hhdmBase ≤ v by omega)
    exact ht.outside a (by omega) (hfree a (by omega) (by omega))
  · rw [tablesFor] at hn
    dsimp only
    omega

end Range

section Region

variable (hfit : r.base + r.len ≤ hhdmSize)

include hfit

lemma direct_bounds : pageSize ∣ directStart r ∧ directStart r ≤ max r.base mib ∧
    pageSize ∣ directStop r ∧ r.base + r.len ≤ directStop r ∧ directStop r ≤ hhdmSize := by
  have hlt : r.base + r.len < 2 ^ 63 := hfit.trans_lt (by decide)
  have hmod : (r.base + r.len) % 2 ^ 64 = r.base + r.len := Nat.mod_eq_of_lt (by omega)
  have hdown := dvd_alignDown (x := r.base) (by omega)
  have hup := alignUp_spec (x := r.base + r.len) (k := 12) (by decide) (by omega)
  rw [directStop, hmod]
  refine ⟨?_, max_le_max_right _ hdown.2.1, hup.1, hup.2, alignUp_le hfit (by decide) (by decide)⟩
  rcases max_choice (alignDown r.base pageSize) mib with h | h <;> rw [directStart, h]
  · exact hdown.1
  · decide

lemma mapRegion_eq (hr : directMapped r = true) (hstop : mib < directStop r) (s : Slot 4 × ℕ) :
    directStart r ≤ directStop r ∧ mapRegion page1gb flags s r =
      Slot.mapRange page1gb flags s (hhdmBase + directStart r) (directStart r) (directStop r - directStart r) := by
  obtain ⟨-, hstart, -, hup, htop⟩ := direct_bounds hfit
  have hwindow := hhdm_window
  have hle : directStart r ≤ directStop r := by omega
  have hvirt : (hhdmBase + directStart r) % 2 ^ 64 = hhdmBase + directStart r := Nat.mod_eq_of_lt (by omega)
  have hsize : (directStop r + (2 ^ 64 - directStart r)) % 2 ^ 64 = directStop r - directStart r := by
    have hsum : directStop r + (2 ^ 64 - directStart r) = directStop r - directStart r + 2 ^ 64 := by
      clear hvirt hfit hup hstart
      omega
    rw [hsum, Nat.add_mod_right, Nat.mod_eq_of_lt (by omega)]
  refine ⟨hle, ?_⟩
  rw [mapRegion, if_neg (by simpa [hr] using hstop), hvirt, hsize]

omit hfit in
lemma mapRegion_skips (h : ¬ (directMapped r = true ∧ mib < directStop r)) (s : Slot 4 × ℕ) :
    mapRegion page1gb flags s r = some s ∧ ∀ a, ¬ OnPage r a := by
  constructor
  · rw [mapRegion, if_pos]
    simpa [or_iff_not_imp_left] using h
  · rintro a ⟨hm, h₁, h₂⟩
    exact h ⟨hm, (le_max_right _ _).trans_lt (h₁.trans_lt h₂)⟩

lemma mapRegion_direct (ht : Direct flags t P) (hr : mapRegion page1gb flags (t, n) r = some (t', n')) :
    Direct flags t' fun a => P a ∨ OnPage r a := by
  obtain ⟨hstart, -, hdvd, -, hle⟩ := direct_bounds hfit
  by_cases hm : directMapped r = true ∧ mib < directStop r
  · obtain ⟨hbase, he⟩ := mapRegion_eq hfit hm.1 hm.2 (t, n)
    rw [he] at hr
    exact (mapRange_direct hstart hdvd hbase hle ht hr).congr fun a => by simp only [OnPage, hm.1, true_and]
  · obtain ⟨he, hno⟩ := mapRegion_skips hm (t, n)
    cases he.symm.trans hr
    exact ht.congr fun a => (or_iff_left (hno a)).symm

lemma mapRegion_runs (ht : Direct flags t P) (hfree : ∀ a, OnPage r a → ¬ P a) (hn : regionTables r + rest ≤ n) :
    ∃ s, mapRegion page1gb flags (t, n) r = some s ∧ rest ≤ s.2 := by
  obtain ⟨hstart, -, hdvd, -, hle⟩ := direct_bounds hfit
  by_cases hm : directMapped r = true ∧ mib < directStop r
  · obtain ⟨hbase, he⟩ := mapRegion_eq hfit hm.1 hm.2 (t, n)
    rw [he]
    rw [regionTables, if_pos hm.1] at hn
    exact mapRange_runs hstart hdvd hbase hle ht (fun a h₁ h₂ => hfree a ⟨hm.1, h₁, h₂⟩) hn
  · exact ⟨_, (mapRegion_skips hm (t, n)).1, (Nat.le_add_left _ _).trans hn⟩

end Region

lemma regions_direct (hfit : ∀ r ∈ l, r.base + r.len ≤ hhdmSize) (ht : Direct flags t P)
    (hr : l.foldlM (mapRegion page1gb flags) (t, n) = some (t', n')) :
    Direct flags t' fun a => P a ∨ ∃ r ∈ l, OnPage r a := by
  induction l generalizing t n P with
  | nil =>
    cases hr
    exact ht.congr fun a => by simp
  | cons r l ih =>
    rw [List.foldlM_cons] at hr
    obtain ⟨⟨t₁, n₁⟩, hstep, hr⟩ := Option.bind_eq_some_iff.1 hr
    have ht₁ := mapRegion_direct (hfit r List.mem_cons_self) ht hstep
    refine (ih (fun q hq => hfit q (List.mem_cons_of_mem _ hq)) ht₁ hr).congr fun a => ?_
    simp only [List.mem_cons, exists_eq_or_imp, or_assoc]

lemma regions_run (hfit : ∀ r ∈ l, r.base + r.len ≤ hhdmSize) (ht : Direct flags t P)
    (hapart : l.Pairwise fun r q => ∀ a, ¬ (OnPage r a ∧ OnPage q a)) (hfree : ∀ r ∈ l, ∀ a, OnPage r a → ¬ P a)
    (hn : (l.map regionTables).sum ≤ n) : ∃ s, l.foldlM (mapRegion page1gb flags) (t, n) = some s := by
  induction l generalizing t n P with
  | nil => exact ⟨_, rfl⟩
  | cons r l ih =>
    obtain ⟨hr, hl⟩ := List.pairwise_cons.1 hapart
    rw [List.map_cons, List.sum_cons] at hn
    have hfit₁ := hfit r List.mem_cons_self
    obtain ⟨⟨t₁, n₁⟩, hstep, hn₁⟩ : ∃ s, mapRegion page1gb flags (t, n) r = some s ∧ _ ≤ s.2 :=
      mapRegion_runs hfit₁ ht (hfree r List.mem_cons_self) hn
    have ht₁ := mapRegion_direct hfit₁ ht hstep
    rw [List.foldlM_cons, hstep]
    refine ih (fun q hq => hfit q (List.mem_cons_of_mem _ hq)) ht₁ hl (fun q hq a ha => ?_) hn₁
    rintro (hp | hp)
    · exact hfree q (List.mem_cons_of_mem _ hq) a ha hp
    · exact hr q hq a ⟨hp, ha⟩

structure MapsDirectly (page1gb : Bool) (flags : ℕ) (mmap : List MemRegion) (n : ℕ) : Prop where
  identity : ∀ t n', directMap page1gb flags mmap n = some (t, n') →
    Direct flags t fun a => a < mib ∨ ∃ r ∈ mmap, OnPage r a
  covers : ∀ t n' phys len, directMap page1gb flags mmap n = some (t, n') → phys + len < 2 ^ 64 →
    vmmPhysIsDirectMapped mmap phys len = true → ∀ a, phys ≤ a → a < phys + len →
    t.translate (hhdmBase + a) = some (a, flags)
  returns : (mmap.Pairwise fun r q => ∀ a, ¬ (OnPage r a ∧ OnPage q a)) →
    tablesFor 0 mib + (mmap.map regionTables).sum ≤ n → ∃ s, directMap page1gb flags mmap n = some s

theorem directMap_right (hfit : ∀ r ∈ l, r.base + r.len ≤ hhdmSize) :
    MapsDirectly page1gb flags l n := by
  have hmib : pageSize ∣ mib := by decide
  have hfirst : ∀ {t n'}, Slot.mapRange page1gb flags (kernelTables, n) hhdmBase 0 mib = some (t, n') →
      Direct flags t fun a => a < mib := by
    intro t n' hr
    exact (mapRange_direct (dvd_zero _) hmib (Nat.zero_le _) (by decide) kernelTables_direct hr).congr
      fun a => by simp
  have hidentity : ∀ t n', directMap page1gb flags l n = some (t, n') →
      Direct flags t fun a => a < mib ∨ ∃ r ∈ l, OnPage r a := by
    intro t n' hr
    obtain ⟨⟨t₁, n₁⟩, hstep, hr⟩ := Option.bind_eq_some_iff.1 hr
    exact regions_direct hfit (hfirst hstep) hr
  refine ⟨hidentity, ?_, fun hapart hn => ?_⟩
  · intro t n' phys len hr hlen hmapped a h₁ h₂
    rw [vmmPhysIsDirectMapped, Nat.mod_eq_of_lt hlen] at hmapped
    simp only [Bool.or_eq_true, decide_eq_true_eq, List.any_eq_true, Bool.and_eq_true] at hmapped
    rcases hmapped with hfew | ⟨r, hr', ⟨hm, hbase⟩, hstop⟩
    · exact (hidentity t n' hr).inside a (by simp only [mib, hhdmSize, vmallocStart, hhdmBase] at *; omega)
        (.inl (by omega))
    · obtain ⟨-, hstart, -, hup, hle⟩ := direct_bounds (hfit r hr')
      refine (hidentity t n' hr).inside a (by omega) ?_
      by_cases ha : a < mib
      · exact .inl ha
      · exact .inr ⟨r, hr', hm, by omega, by omega⟩
  · obtain ⟨⟨t, n₁⟩, hstep, hn₁⟩ : ∃ s, Slot.mapRange page1gb flags (kernelTables, n) hhdmBase 0 mib = some s ∧
        _ ≤ s.2 :=
      mapRange_runs (dvd_zero _) hmib (Nat.zero_le _) (by decide) kernelTables_direct (fun _ _ _ => not_false) hn
    rw [directMap, hstep]
    exact regions_run hfit (hfirst hstep) hapart (fun r _ a ha h => by
      have := (le_max_right _ _).trans ha.2.1
      omega) hn₁

def smallMap : List MemRegion := [⟨0x100000, 0x300000, .usable⟩]

theorem directMap_right_smallMap : ∃ t n', directMap true 3 smallMap 16 = some (t, n') ∧
    t.translate (hhdmBase + 0x23456) = some (0x23456, 3) := by
  have hright : MapsDirectly true 3 smallMap 16 := directMap_right (by decide)
  obtain ⟨⟨t, n'⟩, hr⟩ := hright.returns (List.pairwise_singleton _ _) (by decide)
  exact ⟨t, n', hr, (hright.identity t n' hr).inside 0x23456 (by decide) (.inl (by decide))⟩

end Direct

end MyOS.Memory
