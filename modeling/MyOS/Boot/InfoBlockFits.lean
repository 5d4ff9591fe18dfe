import MyOS.Boot.BootInfo

/-! The blocks that the parser reads to their end only, and what it takes from them. -/

namespace MyOS.Boot.InfoBlock

open Library Looping

section Conditions

variable (m : ℕ → UInt8)

def tagType (p : ℕ) : ℕ := Bytes.read m p 4
def tagSize (p : ℕ) : ℕ := Bytes.read m (p + 4) 4

def tagsFrom (stop : ℕ) : ℕ → ℕ → List ℕ
  | 0, _ => []
  | n + 1, p =>
    if p + 8 ≤ stop ∧ tagType m p ≠ 0 then p :: tagsFrom stop n (p + tagStep (tagSize m p)) else []

def StringFits (stop a : ℕ) : Prop := ∃ b < stop, a ≤ b ∧ m b = 0

instance (stop a : ℕ) : Decidable (StringFits m stop a) :=
  inferInstanceAs (Decidable (∃ b < stop, a ≤ b ∧ m b = 0))

def cstring (stop a : ℕ) : List UInt8 := (Bytes.load m a (stop - a)).takeWhile (· ≠ 0)

def entrySize (t : ℕ) : ℕ := Bytes.read m (t + 8) 4
def entryLen (p : ℕ) : ℕ := Bytes.read m (p + 8) 8

def regionAt (p : ℕ) : MemRegion :=
  ⟨Bytes.read m p 8, entryLen m p, MemType.ofCode (UInt32.ofNat (Bytes.read m (p + 16) 4))⟩

def entriesFrom (t : ℕ) : ℕ → ℕ → List ℕ
  | 0, _ => []
  | n + 1, p =>
    if p + entrySize m t ≤ t + tagSize m t then p :: entriesFrom t n (p + entrySize m t) else []

/-- The entries of the map `t`; one of size zero is met again and again until the copy is full. -/
def entries (t : ℕ) : List ℕ := entriesFrom m t (tagSize m t + bootMaxMmap + 1) (t + 16)

/-- The entries lie inside the block as far as they are read when `count` regions are known. -/
def EntriesFit (stop : ℕ) : List ℕ → ℕ → Prop
  | [], _ => True
  | p :: ps, count =>
    count < bootMaxMmap → p + 16 ≤ stop ∧ (entryLen m p ≠ 0 → p + 20 ≤ stop) ∧
      EntriesFit stop ps (if entryLen m p = 0 then count else count + 1)

def Advances (t count : ℕ) : Prop :=
  entrySize m t = 0 → 16 ≤ tagSize m t → count < bootMaxMmap → entryLen m (t + 16) ≠ 0

def MmapFits (stop t count : ℕ) : Prop :=
  t + 12 ≤ stop ∧ Advances m t count ∧ EntriesFit m stop (entries m t) count

def IsRgb (t : ℕ) : Prop :=
  Bytes.read m (t + 29) 1 = 1 ∧ (Bytes.read m (t + 28) 1 = 32 ∨ Bytes.read m (t + 28) 1 = 24)

instance (t : ℕ) : Decidable (IsRgb m t) := inferInstanceAs (Decidable (_ ∧ _))

end Conditions

structure Counters where
  mmap : ℕ := 0
  modules : ℕ := 0
  rsdp : Bool := false

def TagFits (m : ℕ → UInt8) (stop t : ℕ) (c : Counters) : Prop :=
  match tagType m t with
  | 1 => StringFits m stop (t + 8)
  | 2 => StringFits m stop (t + 8)
  | 3 => c.modules < bootMaxModules → StringFits m stop (t + 16)
  | 6 => MmapFits m stop t c.mmap
  | 8 => t + (if IsRgb m t then 38 else 30) ≤ stop
  | 14 => c.rsdp = false → t + 8 + rsdpSize (tagSize m t) ≤ stop
  | 15 => t + 8 + rsdpSize (tagSize m t) ≤ stop
  | _ => True

def Counters.next (m : ℕ → UInt8) (t : ℕ) (c : Counters) : Counters where
  mmap :=
    if tagType m t = 6 then
      min bootMaxMmap (c.mmap + ((entries m t).filter (entryLen m · ≠ 0)).length)
    else c.mmap
  modules := if tagType m t = 3 then min bootMaxModules (c.modules + 1) else c.modules
  rsdp := c.rsdp || tagType m t = 14 || tagType m t = 15

def TagsFit (m : ℕ → UInt8) (stop : ℕ) : List ℕ → Counters → Prop
  | [], _ => True
  | t :: ts, c => TagFits m stop t c ∧ tagStep (tagSize m t) ≠ 0 ∧ TagsFit m stop ts (c.next m t)

variable {m : ℕ → UInt8} {stop n a t p : ℕ}

section Strings

lemma StringFits.length (h : StringFits m stop a) :
    ∃ len, a + len < stop ∧ m (a + len) = 0 ∧ ∀ i < len, m (a + i) ≠ 0 := by
  obtain ⟨b, hb, hab, hz⟩ := h
  have hex : ∃ i, m (a + i) = 0 := ⟨b - a, by rwa [Nat.add_sub_cancel' hab]⟩
  have hle : Nat.find hex ≤ b - a := Nat.find_min' hex (by rwa [Nat.add_sub_cancel' hab])
  exact ⟨Nat.find hex, by omega, Nat.find_spec hex, fun i hi => Nat.find_min hex hi⟩

lemma cstring_eq {len : ℕ} (hlen : a + len < stop) (hz : m (a + len) = 0)
    (hnz : ∀ i < len, m (a + i) ≠ 0) : cstring m stop a = Bytes.load m a len := by
  have hsplit : Bytes.load m a (stop - a) =
      Bytes.load m a len ++ (m (a + len) :: Bytes.load m (a + len + 1) (stop - a - len - 1)) := by
    have hone : [m (a + len)] = Bytes.load m (a + len) 1 := by simp [Bytes.load]
    rw [← List.singleton_append, hone, Bytes.load_append, Bytes.load_append]
    congr 1
    omega
  have hall : ∀ c ∈ Bytes.load m a len, (decide (c ≠ 0)) = true := by
    intro c hc
    obtain ⟨i, hi, rfl⟩ := List.mem_map.1 hc
    exact decide_eq_true (hnz i (List.mem_range.1 hi))
  rw [cstring, hsplit, List.takeWhile_append_of_pos hall, hz]
  simp

lemma read_zero (m : ℕ → UInt8) (a : ℕ) : Bytes.read m a 1 = 0 ↔ m a = 0 := by
  simp [Bytes.read, ← UInt8.toNat_inj]

lemma strlen_runs {len : ℕ} (hlen : a + len < stop) (hz : m (a + len) = 0)
    (hnz : ∀ i < len, m (a + i) ≠ 0) : (strlen a).Runs m stop len := by
  -- by induction on the characters that are left
  suffices h : ∀ k ≤ len, (loop (strlenRound a) (len - k)).Runs m stop len by
    simpa [strlen] using h len le_rfl
  intro k hk
  induction k with
  | zero =>
    exact .loop_done (.read (by omega) (.if_pos ((read_zero _ _).2 hz) (.pure _)))
  | succ k ih =>
    have hnext : len - (k + 1) + 1 = len - k := by omega
    refine .loop_step (.read (by omega) ?_) (ih (by omega))
    exact .if_neg (mt (read_zero _ _).1 (hnz _ (by omega))) (hnext ▸ .pure _)

lemma strlen_stringFits {i len : ℕ} (h : (loop (strlenRound a) i).Finishes m stop n len) :
    StringFits m stop a := by
  induction n generalizing i with
  | zero => exact absurd h not_finishes_loop_zero
  | succ n ih =>
    rcases finishes_loop.1 h with h | ⟨i', -, hl⟩
    · simp only [strlenRound, finishes_bind, finishes_lift, finishes_ite, finishes_pure, and_assoc,
        exists_eq_left, Reading.read_fst, Reading.stays_read, read_zero] at h
      exact ⟨a + i, by omega, by omega, by_contra fun hc => by cases h.2.2 hc⟩
    · exact ih hl

lemma strlcpy_runs {size : ℕ} (h : StringFits m stop a) :
    (strlcpy a size).Runs m stop ((cstring m stop a).take (size - 1)) := by
  obtain ⟨len, hlen, hz, hnz⟩ := h.length
  refine .bind (strlen_runs hlen hz hnz) ?_
  rw [cstring_eq hlen hz hnz]
  split_ifs with hsize
  · rw [List.take_of_length_le (by rw [Bytes.length_load]; omega)]
    exact .lift ((Reading.stays_load _ _).2 (by omega))
  · rw [Bytes.load_take (by omega)]
    exact .lift ((Reading.stays_load _ _).2 (by omega))

lemma strlcpy_stringFits {size : ℕ} {s : List UInt8} (h : (strlcpy a size).Finishes m stop n s) :
    StringFits m stop a := by
  obtain ⟨len, hlen, -⟩ := finishes_bind.1 h
  exact strlen_stringFits hlen

end Strings

section Mmap

variable {l : List MemRegion}

def Enough (m : ℕ → UInt8) (t n p count : ℕ) : Prop :=
  if entrySize m t = 0 then
    p + entrySize m t ≤ t + tagSize m t → count < bootMaxMmap → entryLen m p ≠ 0 ∧ bootMaxMmap < count + n
  else t + tagSize m t < p + n

def kept (m : ℕ → UInt8) (ps : List ℕ) : List MemRegion := (ps.filter (entryLen m · ≠ 0)).map (regionAt m)

@[simp]
lemma kept_nil : kept m [] = [] := rfl

lemma kept_cons_zero {ps : List ℕ} (h : entryLen m p = 0) : kept m (p :: ps) = kept m ps := by
  simp [kept, h]

lemma kept_cons {ps : List ℕ} (h : entryLen m p ≠ 0) : kept m (p :: ps) = regionAt m p :: kept m ps := by
  simp [kept, h]

section Round

variable (hsize : t + 12 ≤ stop)
include hsize

lemma mmapRound_end {q : ℕ} (hq : ¬ p + entrySize m t ≤ q) :
    (mmapRound t q (p, l)).Runs m stop (.inr l) :=
  .read hsize (.if_neg hq (.pure _))

lemma mmapRound_full {q : ℕ} (hq : p + entrySize m t ≤ q) (hl : l.length = bootMaxMmap) :
    (mmapRound t q (p, l)).Runs m stop (.inr l) :=
  .read hsize (.if_pos hq (.if_pos hl (.pure _)))

lemma mmapRound_skip {q : ℕ} (hq : p + entrySize m t ≤ q) (hl : l.length ≠ bootMaxMmap)
    (hp : p + 16 ≤ stop) (hlen : entryLen m p = 0) :
    (mmapRound t q (p, l)).Runs m stop (.inl (p + entrySize m t, l)) :=
  .read hsize (.if_pos hq (.if_neg hl (.read (by omega) (.if_pos hlen (.pure _)))))

lemma mmapRound_keep {q : ℕ} (hq : p + entrySize m t ≤ q) (hl : l.length ≠ bootMaxMmap)
    (hp : p + 20 ≤ stop) (hlen : entryLen m p ≠ 0) :
    (mmapRound t q (p, l)).Runs m stop (.inl (p + entrySize m t, l ++ [regionAt m p])) := by
  refine .read hsize (.if_pos hq (.if_neg hl (.read (by omega) (.if_neg hlen ?_))))
  exact .read (by omega) (.read (by omega) (.pure _))

end Round

lemma mmapLoop_runs (hn : Enough m t n p l.length) (hl : l.length ≤ bootMaxMmap) (hsize : t + 12 ≤ stop)
    (hfit : EntriesFit m stop (entriesFrom m t n p) l.length) :
    (loop (mmapRound t (t + tagSize m t)) (p, l)).Runs m stop
      ((l ++ kept m (entriesFrom m t n p)).take bootMaxMmap) := by
  induction n generalizing p l with
  | zero =>
    rw [entriesFrom, kept_nil, List.append_nil, List.take_of_length_le hl]
    by_cases hp : p + entrySize m t ≤ t + tagSize m t
    · refine .loop_done (mmapRound_full hsize hp ?_)
      unfold Enough at hn
      split_ifs at hn
      · have := hn hp
        omega
      · omega
    · exact .loop_done (mmapRound_end hsize hp)
  | succ n ih =>
    rw [entriesFrom] at hfit ⊢
    by_cases hp : p + entrySize m t ≤ t + tagSize m t
    · rw [if_pos hp] at hfit ⊢
      by_cases hfull : l.length = bootMaxMmap
      · rw [List.take_append_of_le_length hfull.ge, ← hfull, List.take_length]
        exact .loop_done (mmapRound_full hsize hp hfull)
      obtain ⟨h16, h20, hrest⟩ := hfit (by omega)
      by_cases hlen : entryLen m p = 0
      · rw [if_pos hlen] at hrest
        rw [kept_cons_zero hlen]
        refine .loop_step (mmapRound_skip hsize hp hfull h16 hlen) (ih ?_ hl hrest)
        unfold Enough at hn ⊢
        split_ifs at hn ⊢ with hes
        · exact absurd hlen (hn hp (by omega)).1
        · omega
      · rw [if_neg hlen] at hrest
        have hcount : (l ++ [regionAt m p]).length = l.length + 1 := by simp
        rw [kept_cons hlen, List.append_cons]
        refine .loop_step (mmapRound_keep hsize hp hfull (h20 hlen) hlen)
          (ih ?_ (by omega) (by rwa [hcount]))
        unfold Enough at hn ⊢
        rw [hcount]
        split_ifs at hn ⊢ with hes
        · rw [hes, Nat.add_zero]
          have := hn hp (by omega)
          exact fun _ _ => ⟨hlen, by omega⟩
        · omega
    · rw [if_neg hp, kept_nil, List.append_nil, List.take_of_length_le hl]
      exact .loop_done (mmapRound_end hsize hp)

lemma mmapRound_finishes {q : ℕ} {r : (ℕ × List MemRegion) ⊕ List MemRegion}
    (h : (mmapRound t q (p, l)).Finishes m stop n r) :
    t + 12 ≤ stop ∧ (p + entrySize m t ≤ q → l.length < bootMaxMmap →
      p + 16 ≤ stop ∧ (entryLen m p = 0 → r = .inl (p + entrySize m t, l)) ∧
        (entryLen m p ≠ 0 → p + 20 ≤ stop ∧ r = .inl (p + entrySize m t, l ++ [regionAt m p]))) := by
  simp only [mmapRound, finishes_bind, finishes_lift, finishes_ite, finishes_pure, and_assoc,
    exists_eq_left, Reading.read_fst, Reading.stays_read] at h
  obtain ⟨hsize, hin, -⟩ := h
  refine ⟨hsize, fun hp hl => ?_⟩
  obtain ⟨h16, hzero, hnz⟩ := (hin hp).2 hl.ne
  exact ⟨h16, hzero, fun hlen => ⟨(hnz hlen).2.1, (hnz hlen).2.2⟩⟩

lemma mmapLoop_fits {r : List MemRegion} (k : ℕ)
    (h : (loop (mmapRound t (t + tagSize m t)) (p, l)).Finishes m stop n r) :
    t + 12 ≤ stop ∧ EntriesFit m stop (entriesFrom m t k p) l.length ∧
      (entrySize m t = 0 → p ≤ t + tagSize m t → l.length < bootMaxMmap → entryLen m p ≠ 0) := by
  induction n generalizing p l k with
  | zero => exact absurd h not_finishes_loop_zero
  | succ n ih =>
    rcases finishes_loop.1 h with hd | ⟨s, hs, hl⟩
    · obtain ⟨hsize, hround⟩ := mmapRound_finishes hd
      have hend (hp : p + entrySize m t ≤ t + tagSize m t) : ¬ l.length < bootMaxMmap := by
        intro hlt
        obtain ⟨-, hzero, hnz⟩ := hround hp hlt
        by_cases hlen : entryLen m p = 0
        · cases hzero hlen
        · cases (hnz hlen).2
      refine ⟨hsize, ?_, fun hes hp hlt => absurd hlt (hend (by omega))⟩
      cases k with
      | zero => trivial
      | succ k =>
        rw [entriesFrom]
        split_ifs with hp
        · exact fun hlt => absurd hlt (hend hp)
        · trivial
    · obtain ⟨hsize, hround⟩ := mmapRound_finishes hs
      refine ⟨hsize, ?_, fun hes hp hlt hlen => ?_⟩
      · cases k with
        | zero => trivial
        | succ k =>
          rw [entriesFrom]
          split_ifs with hp
          · intro hlt
            obtain ⟨h16, hzero, hnz⟩ := hround hp hlt
            refine ⟨h16, fun hlen => (hnz hlen).1, ?_⟩
            split_ifs with hlen
            · cases hzero hlen
              exact (ih k hl).2.1
            · cases (hnz hlen).2
              simpa using (ih k hl).2.1
          · trivial
      · cases (hround (by omega) hlt).2.1 hlen
        rw [hes, Nat.add_zero] at hl
        exact (ih 0 hl).2.2 hes hp hlt hlen

lemma enough_entries {count : ℕ} (h : Advances m t count) :
    Enough m t (tagSize m t + bootMaxMmap + 1) (t + 16) count := by
  unfold Enough
  split_ifs with hes
  · exact fun hp hlt => ⟨h hes (by omega) hlt, by omega⟩
  · omega

variable {bi : BootInfo}

lemma parseMmap_runs (hl : bi.mmap.length ≤ bootMaxMmap) (h : MmapFits m stop t bi.mmap.length) :
    (parseMmap t bi).Runs m stop
      { bi with mmap := (bi.mmap ++ kept m (entries m t)).take bootMaxMmap } := by
  obtain ⟨hsize, hadv, hfit⟩ := h
  exact .read (by omega) (.bind (mmapLoop_runs (enough_entries hadv) hl hsize hfit) (.pure _))

lemma parseMmap_fits {r : BootInfo} (h : (parseMmap t bi).Finishes m stop n r) :
    MmapFits m stop t bi.mmap.length := by
  simp only [parseMmap, finishes_bind, finishes_lift, and_assoc, exists_eq_left, Reading.read_fst] at h
  obtain ⟨-, l, hl, -⟩ := h
  obtain ⟨hsize, hfit, hadv⟩ := mmapLoop_fits (tagSize m t + bootMaxMmap + 1) hl
  exact ⟨hsize, fun hes hp hlt => hadv hes (by omega) hlt, hfit⟩

end Mmap

section Tag

def moduleAt (m : ℕ → UInt8) (stop t : ℕ) : ModuleCopy :=
  ⟨Bytes.read m (t + 8) 4, Bytes.read m (t + 12) 4, (cstring m stop (t + 16)).take 63⟩

def taken (m : ℕ → UInt8) (stop t : ℕ) (bi : BootInfo) : BootInfo :=
  match tagType m t with
  | 1 => { bi with cmdline := (cstring m stop (t + 8)).take 255 }
  | 2 => { bi with bootloader := (cstring m stop (t + 8)).take 63 }
  | 3 =>
    if bi.modules.length < bootMaxModules then { bi with modules := bi.modules ++ [moduleAt m stop t] }
    else bi
  | 6 => { bi with mmap := (bi.mmap ++ kept m (entries m t)).take bootMaxMmap }
  | 8 => (parseFramebuffer t bi m).1
  | 14 => (parseAcpi t true bi m).1
  | 15 => (parseAcpi t false bi m).1
  | _ => bi

def BootInfo.counters (bi : BootInfo) : Counters := ⟨bi.mmap.length, bi.modules.length, bi.rsdpPresent⟩

variable {bi : BootInfo}

lemma parseModule_runs (h : bi.modules.length < bootMaxModules → StringFits m stop (t + 16)) :
    (parseModule t bi).Runs m stop
      (if bi.modules.length < bootMaxModules then
        { bi with modules := bi.modules ++ [moduleAt m stop t] } else bi) := by
  unfold parseModule
  split_ifs with hlt
  · have hlen : t + 16 < stop := by
      obtain ⟨b, hb, hab, -⟩ := h hlt
      omega
    exact .read (by omega) (.read (by omega) (.bind (strlcpy_runs (h hlt)) (.pure _)))
  · exact .pure _

lemma parseModule_fits {r : BootInfo} (h : (parseModule t bi).Finishes m stop n r)
    (hlt : bi.modules.length < bootMaxModules) : StringFits m stop (t + 16) := by
  rw [parseModule, if_pos hlt] at h
  simp only [finishes_bind] at h
  obtain ⟨-, -, -, -, name, hname, -⟩ := h
  exact strlcpy_stringFits hname

lemma parseColours_stays {fb : BootFramebuffer} :
    (parseColours t fb).Stays m stop ↔ t + 38 ≤ stop := by
  unfold parseColours
  simp only [Reading.stays_bind, Reading.stays_read, Reading.stays_pure, and_true]
  omega

lemma parseFramebuffer_stays :
    (parseFramebuffer t bi).Stays m stop ↔ t + (if IsRgb m t then 38 else 30) ≤ stop := by
  have htext (h : Bytes.read m (t + 29) 1 = 2) : ¬ IsRgb m t := fun hrgb => by
    rw [hrgb.1] at h
    cases h
  unfold parseFramebuffer
  simp only [Reading.stays_bind, Reading.stays_read, Reading.stays_ite, Reading.stays_pure,
    parseColours_stays, implies_true, and_true, true_and]
  split_ifs with hrgb
  · exact ⟨fun h => h.2.2.2.2.2.2 (fun h => htext h hrgb) hrgb,
      fun h => ⟨by omega, by omega, by omega, by omega, by omega, by omega, fun _ _ => h⟩⟩
  · exact ⟨fun h => h.2.2.2.2.2.1,
      fun h => ⟨by omega, by omega, by omega, by omega, by omega, by omega, fun _ hr => absurd hr hrgb⟩⟩

lemma parseAcpi_stays {old : Bool} : (parseAcpi t old bi).Stays m stop ↔
    (¬ (old = true ∧ bi.rsdpPresent = true) → t + 8 + rsdpSize (tagSize m t) ≤ stop) := by
  unfold parseAcpi
  simp only [Reading.stays_bind, Reading.stays_read, Reading.stays_load, Reading.stays_ite,
    Reading.stays_pure, Reading.read_fst, implies_true, true_and, and_true]
  exact ⟨fun h hn => (h hn).2, fun h hn => ⟨by have := h hn; omega, h hn⟩⟩

lemma parseTag_runs (hl : bi.mmap.length ≤ bootMaxMmap) (h : TagFits m stop t bi.counters) :
    (parseTag t bi (tagType m t)).Runs m stop (taken m stop t bi) := by
  unfold TagFits at h
  unfold parseTag taken
  generalize tagType m t = type at h ⊢
  revert h
  split <;> intro h
  · exact .bind (strlcpy_runs h) (.pure _)
  · exact .bind (strlcpy_runs h) (.pure _)
  · exact parseModule_runs h
  · exact parseMmap_runs hl h
  · exact .lift (parseFramebuffer_stays.2 h)
  · exact .lift (parseAcpi_stays.2 fun hn => h (by simpa [BootInfo.counters] using hn))
  · exact .lift (parseAcpi_stays.2 fun _ => h)
  · simpa [*] using Runs.pure bi

lemma parseTag_fits {r : BootInfo} (h : (parseTag t bi (tagType m t)).Finishes m stop n r) :
    TagFits m stop t bi.counters := by
  unfold parseTag at h
  unfold TagFits
  generalize tagType m t = type at h ⊢
  revert h
  split <;> intro h
  · obtain ⟨_, hs, -⟩ := finishes_bind.1 h
    exact strlcpy_stringFits hs
  · obtain ⟨_, hs, -⟩ := finishes_bind.1 h
    exact strlcpy_stringFits hs
  · exact parseModule_fits h
  · exact parseMmap_fits h
  · exact parseFramebuffer_stays.1 (finishes_lift.1 h).2
  · exact fun hp => parseAcpi_stays.1 (finishes_lift.1 h).2 (by simpa [BootInfo.counters] using hp)
  · exact parseAcpi_stays.1 (finishes_lift.1 h).2 (by simp)
  · simp [*]

end Tag

section Tags

structure BootInfo.Within (bi : BootInfo) : Prop where
  cmdline : bi.cmdline.length < bootCmdlineMax
  bootloader : bi.bootloader.length < 64
  mmap : bi.mmap.length ≤ bootMaxMmap
  modules : bi.modules.length ≤ bootMaxModules
  names : ∀ b ∈ bi.modules, b.name.length < 64
  rsdp : bi.rsdp.length = rsdpMax

variable {bi : BootInfo}

lemma parseFramebuffer_fst : ∃ fb, (parseFramebuffer t bi m).1 = { bi with fb := fb } := by
  unfold parseFramebuffer
  iterate 6 rw [Reading.bind_fst]
  rw [Reading.ite_fst, Reading.ite_fst]
  split_ifs <;> exact ⟨_, rfl⟩

lemma parseAcpi_fst {old : Bool} : (parseAcpi t old bi m).1 =
    if old ∧ bi.rsdpPresent then bi
    else { bi with
      rsdp := Bytes.load m (t + 8) (rsdpSize (tagSize m t)) ++ bi.rsdp.drop (rsdpSize (tagSize m t))
      rsdpPresent := true } := by
  unfold parseAcpi
  rw [Reading.ite_fst]
  split_ifs
  · rfl
  · rw [Reading.bind_fst, Reading.bind_fst, Reading.read_fst, Reading.load_fst, Reading.pure_fst, tagSize]

lemma rsdpSize_le {size : ℕ} : rsdpSize size ≤ rsdpMax := Nat.min_le_right _ _

lemma BootInfo.Within.parseAcpi {old : Bool} (h : bi.Within) : (parseAcpi t old bi m).1.Within := by
  rw [parseAcpi_fst]
  split_ifs
  · exact h
  · have hle : rsdpSize (tagSize m t) ≤ rsdpMax := rsdpSize_le
    refine ⟨h.cmdline, h.bootloader, h.mmap, h.modules, h.names, ?_⟩
    rw [List.length_append, Bytes.length_load, List.length_drop, h.rsdp]
    exact Nat.add_sub_cancel' hle

lemma BootInfo.Within.taken (h : bi.Within) : (taken m stop t bi).Within := by
  have htake {k : ℕ} {l : List UInt8} : (l.take k).length < k + 1 :=
    Nat.lt_succ_of_le (List.length_take_le _ _)
  unfold InfoBlock.taken
  split
  · exact { h with cmdline := htake }
  · exact { h with bootloader := htake }
  · split_ifs with hlt
    · refine { h with modules := by simpa using hlt, names := fun b hb => ?_ }
      rcases List.mem_append.1 hb with hb | hb
      · exact h.names b hb
      · obtain rfl := List.mem_singleton.1 hb
        exact htake
    · exact h
  · exact { h with mmap := List.length_take_le _ _ }
  · obtain ⟨fb, hfb⟩ : ∃ fb, (parseFramebuffer t bi m).1 = { bi with fb := fb } := parseFramebuffer_fst
    rw [hfb]
    exact { h with }
  · exact h.parseAcpi
  · exact h.parseAcpi
  · exact h

lemma taken_mmap : (taken m stop t bi).mmap =
    if tagType m t = 6 then (bi.mmap ++ kept m (entries m t)).take bootMaxMmap else bi.mmap := by
  obtain ⟨fb, hfb⟩ : ∃ fb, (parseFramebuffer t bi m).1 = { bi with fb := fb } := parseFramebuffer_fst
  unfold taken
  rw [hfb, parseAcpi_fst, parseAcpi_fst]
  split <;> simp_all [apply_ite BootInfo.mmap]

lemma taken_modules : (taken m stop t bi).modules =
    if tagType m t = 3 ∧ bi.modules.length < bootMaxModules then bi.modules ++ [moduleAt m stop t]
    else bi.modules := by
  obtain ⟨fb, hfb⟩ : ∃ fb, (parseFramebuffer t bi m).1 = { bi with fb := fb } := parseFramebuffer_fst
  unfold taken
  rw [hfb, parseAcpi_fst, parseAcpi_fst]
  split <;> simp_all [apply_ite BootInfo.modules]

lemma taken_rsdp : ((taken m stop t bi).rsdp, (taken m stop t bi).rsdpPresent) =
    if tagType m t = 15 ∨ tagType m t = 14 ∧ bi.rsdpPresent = false then
      (Bytes.load m (t + 8) (rsdpSize (tagSize m t)) ++ bi.rsdp.drop (rsdpSize (tagSize m t)), true)
    else (bi.rsdp, bi.rsdpPresent) := by
  obtain ⟨fb, hfb⟩ : ∃ fb, (parseFramebuffer t bi m).1 = { bi with fb := fb } := parseFramebuffer_fst
  unfold taken
  rw [hfb, parseAcpi_fst, parseAcpi_fst]
  cases hp : bi.rsdpPresent <;> split <;>
    simp_all [apply_ite BootInfo.rsdp, apply_ite BootInfo.rsdpPresent]

lemma counters_taken (h : bi.Within) : (taken m stop t bi).counters = bi.counters.next m t := by
  have hmod := h.modules
  have hrsdp : (taken m stop t bi).rsdpPresent =
      (bi.rsdpPresent || tagType m t = 14 || tagType m t = 15) := by
    have hsnd : ((taken m stop t bi).rsdp, (taken m stop t bi).rsdpPresent).2 = _ := congrArg Prod.snd taken_rsdp
    cases hp : bi.rsdpPresent <;> by_cases h14 : tagType m t = 14 <;>
      by_cases h15 : tagType m t = 15 <;> simp_all
  unfold Counters.next BootInfo.counters
  rw [taken_mmap, taken_modules, hrsdp]
  congr 1
  · split_ifs <;> simp [kept]
  · by_cases h3 : tagType m t = 3
    · simp only [h3, true_and, if_true]
      split_ifs
      · rw [List.length_append, List.length_singleton]
        omega
      · omega
    · simp [h3]

lemma tagLoop_runs (hn : stop < p + n) (hw : bi.Within)
    (hfit : TagsFit m stop (tagsFrom m stop n p) bi.counters) :
    (loop (tagRound stop) (p, bi)).Runs m stop
      ((tagsFrom m stop n p).foldl (fun bi t => taken m stop t bi) bi) := by
  induction n generalizing p bi with
  | zero => exact .loop_done (.if_neg (by omega) (.pure _))
  | succ n ih =>
    rw [tagsFrom] at hfit ⊢
    by_cases hp : p + 8 ≤ stop
    · by_cases htype : tagType m p = 0
      · rw [if_neg (by tauto)]
        exact .loop_done (.if_pos hp (.read (by omega) (.if_pos htype (.pure _))))
      · rw [if_pos ⟨hp, htype⟩] at hfit ⊢
        obtain ⟨htag, hstep, hrest⟩ := hfit
        rw [← counters_taken hw] at hrest
        refine .loop_step ?_ (ih (by omega) hw.taken hrest)
        refine .if_pos hp (.read (by omega) (.if_neg htype ?_))
        exact .bind (parseTag_runs hw.mmap htag) (.read (by omega) (.pure _))
    · rw [if_neg (by tauto)]
      exact .loop_done (.if_neg hp (.pure _))

lemma tagRound_finishes {r : (ℕ × BootInfo) ⊕ BootInfo} (h : (tagRound stop (p, bi)).Finishes m stop n r)
    (hp : p + 8 ≤ stop) (htype : tagType m p ≠ 0) :
    ∃ bi', (parseTag p bi (tagType m p)).Finishes m stop n bi' ∧
      r = .inl (p + tagStep (tagSize m p), bi') := by
  rw [tagRound, if_pos hp] at h
  simp only [finishes_bind, finishes_lift, finishes_ite, finishes_pure, and_assoc, exists_eq_left,
    Reading.read_fst] at h
  obtain ⟨bi', hbi, -, hr⟩ := h.2.2 htype
  exact ⟨bi', hbi, hr⟩

lemma not_finishes_still {r : BootInfo} (hp : p + 8 ≤ stop) (htype : tagType m p ≠ 0)
    (hstep : tagStep (tagSize m p) = 0) : ¬ (loop (tagRound stop) (p, bi)).Finishes m stop n r := by
  induction n generalizing bi with
  | zero => exact not_finishes_loop_zero
  | succ n ih =>
    intro h
    rcases finishes_loop.1 h with h | ⟨s, h, hl⟩
    · obtain ⟨bi', -, hr⟩ := tagRound_finishes h hp htype
      cases hr
    · obtain ⟨bi', -, hr⟩ := tagRound_finishes h hp htype
      cases hr
      rw [hstep, Nat.add_zero] at hl
      exact ih hl

lemma tagLoop_fits {r : BootInfo} (hw : bi.Within) (k : ℕ)
    (h : (loop (tagRound stop) (p, bi)).Finishes m stop n r) :
    TagsFit m stop (tagsFrom m stop k p) bi.counters := by
  induction n generalizing p bi k with
  | zero => exact absurd h not_finishes_loop_zero
  | succ n ih =>
    cases k with
    | zero => trivial
    | succ k =>
      rw [tagsFrom]
      split_ifs with hp
      · have hstep : tagStep (tagSize m p) ≠ 0 := fun hs => not_finishes_still hp.1 hp.2 hs h
        rcases finishes_loop.1 h with h | ⟨s, h, hl⟩
        · obtain ⟨bi', -, hr⟩ := tagRound_finishes h hp.1 hp.2
          cases hr
        · obtain ⟨bi', htag, hr⟩ := tagRound_finishes h hp.1 hp.2
          cases hr
          have hfit := parseTag_fits htag
          obtain rfl := (parseTag_runs hw.mmap hfit).only n bi' htag.1
          exact ⟨hfit, hstep, counters_taken hw ▸ ih hw.taken k hl⟩
      · trivial

end Tags

end MyOS.Boot.InfoBlock
