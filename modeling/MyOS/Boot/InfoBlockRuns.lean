import MyOS.Boot.InfoBlockFits

/-! The well-formed blocks, and the parser's run over any block. -/

namespace MyOS.Boot.InfoBlock

open Library Looping

structure WellFormedTag (m : ℕ → UInt8) (stop t : ℕ) : Prop where
  header : 8 ≤ tagSize m t
  inside : t + tagSize m t ≤ stop
  string : tagType m t = 1 ∨ tagType m t = 2 → StringFits m (t + tagSize m t) (t + 8)
  module : tagType m t = 3 → StringFits m (t + tagSize m t) (t + 16)
  mmap : tagType m t = 6 → 16 ≤ tagSize m t ∧ 24 ≤ entrySize m t
  fb : tagType m t = 8 → (if IsRgb m t then 38 else 30) ≤ tagSize m t
  acpiOld : tagType m t = 14 → tagSize m t = 28
  acpiNew : tagType m t = 15 → tagSize m t = 44

def tags (m : ℕ → UInt8) (stop : ℕ) : List ℕ := tagsFrom m stop stop 8

def WellFormed (m : ℕ → UInt8) (stop : ℕ) : Prop :=
  8 ≤ stop ∧ ∀ t ∈ tags m stop, WellFormedTag m stop t

/-- The newest RSDP: the last of the second version, or else the first of the first version. -/
def newestRsdp (m : ℕ → UInt8) (ts : List ℕ) : Option ℕ :=
  (ts.filter (tagType m · = 15)).getLast? <|> (ts.filter (tagType m · = 14)).head?

structure Recorded (m : ℕ → UInt8) (stop : ℕ) (ts : List ℕ) (bi : BootInfo) : Prop where
  mmap : bi.mmap = ((ts.filter (tagType m · = 6)).flatMap fun t => kept m (entries m t)).take bootMaxMmap
  modules : bi.modules = ((ts.filter (tagType m · = 3)).map (moduleAt m stop)).take bootMaxModules
  rsdp : ∀ t ∈ newestRsdp m ts, bi.rsdp.take (tagSize m t - 8) = Bytes.load m (t + 8) (tagSize m t - 8)
  rsdpPresent : bi.rsdpPresent = (newestRsdp m ts).isSome

variable {m : ℕ → UInt8} {stop n a t p : ℕ} {bi : BootInfo} {ts ps : List ℕ} {count : ℕ}

lemma StringFits.mono {k : ℕ} (h : StringFits m k a) (hk : k ≤ stop) : StringFits m stop a :=
  let ⟨b, hb, hz⟩ := h
  ⟨b, hb.trans_le hk, hz⟩

lemma entriesFit_of_le (h : ∀ p ∈ ps, p + 20 ≤ stop) : EntriesFit m stop ps count := by
  induction ps generalizing count with
  | nil => trivial
  | cons p ps ih =>
    have hp := h p List.mem_cons_self
    exact fun _ => ⟨by omega, fun _ => hp, ih fun q hq => h q (List.mem_cons_of_mem p hq)⟩

lemma le_of_mem_entriesFrom {q : ℕ} (h : q ∈ entriesFrom m t n p) :
    q + entrySize m t ≤ t + tagSize m t := by
  induction n generalizing p with
  | zero => cases h
  | succ n ih =>
    rw [entriesFrom] at h
    split_ifs at h with hp
    · rcases List.mem_cons.1 h with rfl | h
      · exact hp
      · exact ih h
    · cases h

lemma le_of_mem_tagsFrom (h : t ∈ tagsFrom m stop n p) : p ≤ t := by
  induction n generalizing p with
  | zero => cases h
  | succ n ih =>
    rw [tagsFrom] at h
    split_ifs at h
    · rcases List.mem_cons.1 h with rfl | h
      · exact le_rfl
      · have := ih h
        omega
    · cases h

lemma WellFormedTag.fits {c : Counters} (h : WellFormedTag m stop t) : TagFits m stop t c := by
  have hin := h.inside
  unfold TagFits
  split
  · next ht => exact (h.string (.inl ht)).mono hin
  · next ht => exact (h.string (.inr ht)).mono hin
  · next ht => exact fun _ => (h.module ht).mono hin
  · next ht =>
    obtain ⟨hsize, hes⟩ := h.mmap ht
    refine ⟨by omega, fun hzero => by omega, entriesFit_of_le fun p hp => ?_⟩
    have := le_of_mem_entriesFrom hp
    omega
  · next ht =>
    have := h.fb ht
    omega
  · next ht =>
    rw [h.acpiOld ht] at hin ⊢
    exact fun _ => hin
  · next ht =>
    rw [h.acpiNew ht] at hin ⊢
    exact hin
  · trivial

lemma WellFormedTag.step (h : WellFormedTag m stop t) (ht : 8 ≤ t) (hstop : stop < 2 ^ 32) :
    tagStep (tagSize m t) ≠ 0 := by
  have := h.header
  have := h.inside
  unfold tagStep
  rw [Nat.mod_eq_of_lt (by omega)]
  omega

lemma tagsFit_of_wellFormed {c : Counters} (hstop : stop < 2 ^ 32)
    (h : ∀ t ∈ ts, 8 ≤ t ∧ WellFormedTag m stop t) : TagsFit m stop ts c := by
  induction ts generalizing c with
  | nil => trivial
  | cons t ts ih =>
    obtain ⟨h8, ht⟩ := h t List.mem_cons_self
    exact ⟨ht.fits, ht.step h8 hstop, ih fun u hu => h u (List.mem_cons_of_mem t hu)⟩

section Recorded

lemma take_append_take {α : Type} (l l' : List α) (k : ℕ) :
    (l.take k ++ l').take k = (l ++ l').take k := by
  rw [List.take_append, List.take_append, List.take_take, Nat.min_self, List.length_take]
  congr 2
  omega

lemma newestRsdp_new (ht : tagType m t = 15) : newestRsdp m (ts ++ [t]) = some t := by
  simp [newestRsdp, ht]

lemma newestRsdp_old (ht : tagType m t = 14) :
    newestRsdp m (ts ++ [t]) = (newestRsdp m ts <|> some t) := by
  simp [newestRsdp, ht]

lemma newestRsdp_other (h14 : tagType m t ≠ 14) (h15 : tagType m t ≠ 15) :
    newestRsdp m (ts ++ [t]) = newestRsdp m ts := by
  simp [newestRsdp, h14, h15]

lemma recorded_rsdp (h : Recorded m stop ts bi) (ht : WellFormedTag m stop t) :
    (∀ u ∈ newestRsdp m (ts ++ [t]),
      (taken m stop t bi).rsdp.take (tagSize m u - 8) = Bytes.load m (u + 8) (tagSize m u - 8)) ∧
    (taken m stop t bi).rsdpPresent = (newestRsdp m (ts ++ [t])).isSome := by
  have hsize : tagType m t = 14 ∨ tagType m t = 15 → rsdpSize (tagSize m t) = tagSize m t - 8 := by
    rintro (h14 | h15)
    · rw [ht.acpiOld h14]
      decide
    · rw [ht.acpiNew h15]
      decide
  have hcopy : (Bytes.load m (t + 8) (tagSize m t - 8) ++ bi.rsdp.drop (tagSize m t - 8)).take
      (tagSize m t - 8) = Bytes.load m (t + 8) (tagSize m t - 8) :=
    List.take_left' Bytes.length_load
  have htaken : ((taken m stop t bi).rsdp, (taken m stop t bi).rsdpPresent) = _ := taken_rsdp
  by_cases h15 : tagType m t = 15
  · rw [if_pos (.inl h15), Prod.mk.injEq, hsize (.inr h15)] at htaken
    rw [newestRsdp_new h15, htaken.1, htaken.2]
    refine ⟨fun u hu => ?_, rfl⟩
    cases hu
    exact hcopy
  by_cases h14 : tagType m t = 14
  · rw [newestRsdp_old h14]
    cases hp : bi.rsdpPresent with
    | true =>
      rw [if_neg (by simp [h15, hp]), Prod.mk.injEq] at htaken
      obtain ⟨u, hu⟩ := Option.isSome_iff_exists.1 (h.rsdpPresent.symm.trans hp)
      rw [htaken.1, htaken.2, hu, hp]
      exact ⟨fun v hv => h.rsdp v (hu ▸ hv), rfl⟩
    | false =>
      rw [if_pos (.inr ⟨h14, hp⟩), Prod.mk.injEq, hsize (.inl h14)] at htaken
      have hnone : newestRsdp m ts = none :=
        Option.isNone_iff_eq_none.1 (by simpa [hp] using h.rsdpPresent.symm)
      rw [htaken.1, htaken.2, hnone]
      refine ⟨fun u hu => ?_, rfl⟩
      cases hu
      exact hcopy
  · rw [if_neg (by simp [h14, h15]), Prod.mk.injEq] at htaken
    rw [newestRsdp_other h14 h15, htaken.1, htaken.2]
    exact ⟨h.rsdp, h.rsdpPresent⟩

lemma Recorded.taken (h : Recorded m stop ts bi) (ht : WellFormedTag m stop t) :
    Recorded m stop (ts ++ [t]) (taken m stop t bi) where
  mmap := by
    rw [taken_mmap, List.filter_append, List.flatMap_append, h.mmap]
    split_ifs with h6
    · rw [take_append_take]
      simp [h6]
    · simp [h6]
  modules := by
    have hlen := congrArg List.length h.modules
    rw [List.length_take] at hlen
    rw [taken_modules, List.filter_append, List.map_append, h.modules]
    by_cases h3 : tagType m t = 3
    · by_cases hlt : bi.modules.length < bootMaxModules
      · rw [← h.modules, if_pos ⟨h3, hlt⟩, h.modules, List.take_of_length_le (by omega),
          List.take_of_length_le (by simp [h3]; simp at hlen; omega)]
        simp [h3]
      · rw [← h.modules, if_neg (fun hc => hlt hc.2), h.modules, List.take_append_of_le_length (by omega)]
    · simp [h3]
  rsdp := (recorded_rsdp h ht).1
  rsdpPresent := (recorded_rsdp h ht).2

lemma Recorded.foldl (h : Recorded m stop ts bi) (hps : ∀ t ∈ ps, WellFormedTag m stop t) :
    Recorded m stop (ts ++ ps) (ps.foldl (fun bi t => InfoBlock.taken m stop t bi) bi) := by
  induction ps generalizing ts bi with
  | nil => simpa using h
  | cons t ps ih =>
    have hnext := ih (h.taken (hps t List.mem_cons_self)) fun u hu => hps u (List.mem_cons_of_mem t hu)
    simpa using hnext

end Recorded

section Parse

variable {magic : UInt32} {mbiPhys : ℕ}

def totalSize (m : ℕ → UInt8) : ℕ := Bytes.read m 0 4

structure ParsesBlock (magic : UInt32) (mbiPhys : ℕ) (m : ℕ → UInt8) : Prop where
  ends : ∃ k o, (∀ n, k ≤ n → (bootinfoParse magic mbiPhys n m).1 = some o) ∧ o.info.Within ∧
    (magic = mb2BootloaderMagic → mbiPhys % 8 = 0 → WellFormed m (totalSize m) →
      Recorded m (totalSize m) (tags m (totalSize m)) o.info)
  reads : ∀ n, (bootinfoParse magic mbiPhys n).Stays m (totalSize m)

def started (mbiPhys : ℕ) (m : ℕ → UInt8) : BootInfo := { mbiPhys := mbiPhys, mbiSize := totalSize m }

lemma within_empty {phys size : ℕ} : ({ mbiPhys := phys, mbiSize := size } : BootInfo).Within :=
  ⟨(by decide : 0 < 256), (by decide : 0 < 64), Nat.zero_le _, Nat.zero_le _, by simp, List.length_replicate⟩

lemma recorded_started : Recorded m stop [] (started mbiPhys m) :=
  ⟨rfl, rfl, fun t ht => by simp [newestRsdp] at ht, rfl⟩

def parsed (mbiPhys : ℕ) (m : ℕ → UInt8) : BootInfo :=
  (tags m (totalSize m)).foldl (fun bi t => taken m (totalSize m) t bi) (started mbiPhys m)

lemma within_foldl (h : bi.Within) : (ts.foldl (fun bi t => taken m stop t bi) bi).Within := by
  induction ts generalizing bi with
  | nil => exact h
  | cons t ts ih => exact ih h.taken

lemma bootinfoParse_runs (hm : magic = mb2BootloaderMagic) (hp : mbiPhys % 8 = 0) (h4 : 4 ≤ totalSize m)
    (hfit : TagsFit m (totalSize m) (tags m (totalSize m)) {}) :
    ∃ o, o.info = parsed mbiPhys m ∧ (bootinfoParse magic mbiPhys).Runs m (totalSize m) o := by
  have hloop : (loop (tagRound (totalSize m)) (8, started mbiPhys m)).Runs m (totalSize m)
      (parsed mbiPhys m) := tagLoop_runs (by omega) within_empty hfit
  by_cases hmap : (parsed mbiPhys m).mmap = []
  · refine ⟨.panic (parsed mbiPhys m), rfl, .if_neg (not_not.2 hm) (.if_neg (not_not.2 hp) ?_)⟩
    exact .read h4 (.bind hloop (.if_pos hmap (.pure _)))
  · refine ⟨.returned (parsed mbiPhys m), rfl, .if_neg (not_not.2 hm) (.if_neg (not_not.2 hp) ?_)⟩
    exact .read h4 (.bind hloop (.if_neg hmap (.pure _)))

lemma bootinfoParse_fits {o : Outcome} (hm : magic = mb2BootloaderMagic) (hp : mbiPhys % 8 = 0)
    (h : (bootinfoParse magic mbiPhys).Finishes m (totalSize m) n o) :
    4 ≤ totalSize m ∧ ∃ r, (loop (tagRound (totalSize m)) (8, started mbiPhys m)).Finishes m
      (totalSize m) n r := by
  rw [bootinfoParse, if_neg (not_not.2 hm), if_neg (not_not.2 hp)] at h
  simp only [finishes_bind, finishes_lift, and_assoc, exists_eq_left, Reading.read_fst,
    Reading.stays_read] at h
  obtain ⟨h4, r, hr, -⟩ := h
  exact ⟨by omega, r, hr⟩

lemma bootinfoParse_panics (h : ¬ (magic = mb2BootloaderMagic ∧ mbiPhys % 8 = 0)) :
    (bootinfoParse magic mbiPhys).Runs m stop (.panic {}) := by
  by_cases hm : magic = mb2BootloaderMagic
  · exact .if_neg (not_not.2 hm) (.if_pos (fun hp => h ⟨hm, hp⟩) (.pure _))
  · exact .if_pos hm (.pure _)

lemma parsesBlock_of_fits (h : magic = mb2BootloaderMagic → mbiPhys % 8 = 0 →
    4 ≤ totalSize m ∧ TagsFit m (totalSize m) (tags m (totalSize m)) {}) :
    ParsesBlock magic mbiPhys m := by
  by_cases hmp : magic = mb2BootloaderMagic ∧ mbiPhys % 8 = 0
  · obtain ⟨hm, hp⟩ := hmp
    obtain ⟨h4, hfit⟩ := h hm hp
    obtain ⟨o, ho, hruns⟩ := bootinfoParse_runs hm hp h4 hfit
    obtain ⟨k, hk⟩ := hruns.ends
    refine ⟨⟨k, o, hk, ho ▸ within_foldl within_empty, fun _ _ hwf => ?_⟩, hruns.stays⟩
    rw [ho]
    exact recorded_started.foldl hwf.2
  · have hruns : (bootinfoParse magic mbiPhys).Runs m (totalSize m) _ := bootinfoParse_panics hmp
    obtain ⟨k, hk⟩ := hruns.ends
    exact ⟨⟨k, _, hk, within_empty, fun hm hp => absurd ⟨hm, hp⟩ hmp⟩, hruns.stays⟩

theorem WellFormed.parsesBlock (h : WellFormed m (totalSize m)) : ParsesBlock magic mbiPhys m := by
  have hstop : totalSize m < 2 ^ 32 := Bytes.read_lt
  refine parsesBlock_of_fits fun _ _ => ⟨by have := h.1; omega, ?_⟩
  exact tagsFit_of_wellFormed hstop fun t ht => ⟨le_of_mem_tagsFrom ht, h.2 t ht⟩

theorem parsesBlock_iff (magic : UInt32) (mbiPhys : ℕ) (m : ℕ → UInt8) :
    ParsesBlock magic mbiPhys m ↔ (magic = mb2BootloaderMagic → mbiPhys % 8 = 0 →
      4 ≤ totalSize m ∧ TagsFit m (totalSize m) (tags m (totalSize m)) {}) := by
  refine ⟨fun h hm hp => ?_, parsesBlock_of_fits⟩
  obtain ⟨k, o, hk, -⟩ := h.ends
  obtain ⟨h4, r, hr⟩ := bootinfoParse_fits hm hp ⟨hk k le_rfl, h.reads k⟩
  exact ⟨h4, tagLoop_fits within_empty (totalSize m) hr⟩

def stillBlock (a : ℕ) : UInt8 := List.getD [16, 0, 0, 0, 0, 0, 0, 0, 4, 0, 0, 0, 0, 0, 0, 0] a 0

theorem not_parsesBlock_still : ¬ ParsesBlock mb2BootloaderMagic 0 stillBlock := by
  intro h
  obtain ⟨k, o, hk, -⟩ := h.ends
  obtain ⟨-, r, hr⟩ := bootinfoParse_fits rfl rfl ⟨hk k le_rfl, h.reads k⟩
  exact not_finishes_still (by decide +kernel) (by decide +kernel) (by decide +kernel) hr

end Parse

end MyOS.Boot.InfoBlock
