import MyOS.Fs.Ext2.DirectoryRuns
import MyOS.Fs.Ext2.Readdir

/-! A scan of a directory with `ext2_readdir` while names come and go. -/

namespace MyOS.Fs.Ext2

open Library

/-- A directory and one cursor on it. The other fields are not in the source: what the calls have
returned, whether one of them has returned 0, and the entries that were there at every moment. -/
structure Scan where
  dir : Dir
  pos : ℕ := 0
  returned : List (Name × ℕ) := []
  ended : Bool := false
  kept : List Entry

inductive ScanAction
  | read (rd : ℕ → Bool) (modeOf : ℕ → Option ℕ)
  | add (name : Name) (ino : ℕ) (ft : UInt8) (rd : ℕ → Bool) (g : Growth)
  | remove (name : Name) (rd : ℕ → Bool) (written : Bool)

def ReadResult.shown : ReadResult → List (Name × ℕ)
  | .entry d => [(d.name, d.ino)]
  | _ => []

def ReadResult.isFinished : ReadResult → Bool
  | .finished => true
  | _ => false

namespace Scan

def start (bs : ℕ) (dir : Dir) : Scan := { dir := dir, kept := entries bs dir }

def read (bs : ℕ) (s : Scan) (rd : ℕ → Bool) (modeOf : ℕ → Option ℕ) : Scan :=
  let r := ext2Readdir bs rd modeOf s.dir s.pos
  { s with
    pos := r.2
    returned := r.1.shown ++ s.returned
    ended := s.ended || r.1.isFinished }

def edit (bs : ℕ) (s : Scan) (dir : Dir) : Scan :=
  { s with dir := dir, kept := s.kept.filter fun e => e ∈ entries bs dir }

end Scan

/-- The runs of a scan: every caller of `dir_add` has looked the name up before, under the lock of
the directory. -/
def scans (bs : ℕ) (dir : Dir) : System Scan ScanAction where
  init s := s = .start bs dir
  step s
    | .read rd modeOf, t => t = s.read bs rd modeOf
    | .add name ino ft rd g, t => ino < 2 ^ 32 ∧ (∀ e ∈ entries bs s.dir, e.name ≠ name) ∧
        t = s.edit bs (dirAdd bs rd s.dir name ino ft g).2
    | .remove name rd written, t => t = s.edit bs (dirRemove bs rd s.dir name written).2

structure ScansOnce (bs : ℕ) (s : Scan) : Prop where
  live : ∀ rd modeOf d, (ext2Readdir bs rd modeOf s.dir s.pos).1 = .entry d →
    ∃ e ∈ entries bs s.dir, e.name = d.name ∧ e.inode = d.ino
  once : s.ended = true → ∀ e ∈ s.kept, s.returned.count (e.name, e.inode) = 1

def SparesCursor (bs : ℕ) (s : Scan) : ScanAction → Prop
  | .remove name _ _ => s.pos % bs ≠ 0 →
      ∀ r ∈ dirRecords bs s.dir, r.off = s.pos → r.inode ≠ 0 → r.name ≠ name
  | _ => True

instance (bs : ℕ) (s : Scan) : ∀ a, Decidable (SparesCursor bs s a)
  | .remove name _ _ => inferInstanceAs (Decidable (s.pos % bs ≠ 0 →
      ∀ r ∈ dirRecords bs s.dir, r.off = s.pos → r.inode ≠ 0 → r.name ≠ name))
  | .read .. => .isTrue trivial
  | .add .. => .isTrue trivial

variable {bs : ℕ} {dir : Dir} {s t : Scan} {x y : Rec} {e : Entry} {name : Name} {gone : Name → Prop}

lemma ReadResult.eq_finished {res : ReadResult} (h : res.isFinished = true) : res = .finished := by
  cases res with
  | finished => rfl
  | entry d => cases h
  | failed => cases h

lemma entry_eq_some : x.entry = some e ↔ x.inode ≠ 0 ∧ e = ⟨x.name, x.inode, x.fileType⟩ := by
  rw [Rec.entry]
  split <;> simp_all [eq_comm]

lemma mem_entries : e ∈ entries bs dir ↔ ∃ r ∈ dirRecords bs dir, r.entry = some e := by
  rw [← live_recordsAt 0 dir]
  exact List.mem_filterMap

lemma Distinct.same_record (hd : Distinct bs dir) (hx : x ∈ dirRecords bs dir)
    (hy : y ∈ dirRecords bs dir) (hxi : x.inode ≠ 0) (hyi : y.inode ≠ 0) (hn : x.name = y.name) :
    x = y := by
  by_contra hne
  rw [Distinct, ← live_recordsAt 0 dir, List.Nodup, List.pairwise_map, live,
    List.pairwise_filterMap] at hd
  have hsymm : Std.Symm fun x y : Rec => ∀ e, x.entry = some e → ∀ e', y.entry = some e' →
      e.name ≠ e'.name := ⟨fun _ _ h e he e' he' => (h e' he' e he).symm⟩
  exact hd.forall hx hy hne _ (entry_eq_some.2 ⟨hxi, rfl⟩) _ (entry_eq_some.2 ⟨hyi, rfl⟩) hn

structure ScanInvariant (bs : ℕ) (s : Scan) : Prop where
  wellFormed : WellFormed bs s.dir
  distinct : Distinct bs s.dir
  cursor : OnRecord bs s.dir s.pos
  counts : ∀ e ∈ s.kept, ∃ r ∈ dirRecords bs s.dir, r.entry = some e ∧
    s.returned.count (e.name, e.inode) = if r.off < s.pos then 1 else 0
  ended : s.ended = true → ∀ e ∈ s.kept, s.returned.count (e.name, e.inode) = 1

namespace ScanInvariant

lemma start (hw : WellFormed bs dir) (hd : Distinct bs dir) : ScanInvariant bs (.start bs dir) where
  wellFormed := hw
  distinct := hd
  cursor := .inl (Nat.zero_mod bs)
  counts e he := by
    obtain ⟨r, hr, hre⟩ := mem_entries.1 he
    exact ⟨r, hr, hre, by simp [Scan.start]⟩
  ended h := by cases h

variable {res : ReadResult} {pos : ℕ}

lemma counts_read (h : ScanInvariant bs s) (hread : ReadTo bs s.dir s.pos res pos)
    (he : e ∈ s.kept) : ∃ r ∈ dirRecords bs s.dir, r.entry = some e ∧
      (res.shown ++ s.returned).count (e.name, e.inode) = if r.off < pos then 1 else 0 := by
  obtain ⟨r, hr, hre, hcount⟩ := h.counts e he
  obtain ⟨hri, rfl⟩ := entry_eq_some.1 hre
  refine ⟨r, hr, hre, ?_⟩
  have hle := hread.le
  rw [List.count_append, hcount]
  by_cases hin : s.pos ≤ r.off ∧ r.off < pos
  · obtain ⟨d, rfl, hname, hino⟩ := hread.passed r hr hin.1 hin.2 hri
    rw [if_neg (not_lt.2 hin.1), if_pos hin.2, ReadResult.shown, hname, hino,
      List.count_singleton_self]
  · have hnone : res.shown.count (r.name, r.inode) = 0 := by
      cases res with
      | finished => rfl
      | failed => rfl
      | entry d =>
        obtain ⟨x, hx, hlow, hhigh, hxi, d', hd, hname, -⟩ := hread.entry d rfl
        obtain rfl := ReadResult.entry.inj hd
        refine List.count_eq_zero.2 fun hmem => hin ?_
        obtain ⟨hn, -⟩ := Prod.mk.inj (List.mem_singleton.1 hmem)
        obtain rfl := h.distinct.same_record hx hr hxi hri (hname.symm.trans hn.symm)
        exact ⟨hlow, hhigh⟩
    rw [hnone, Nat.zero_add]
    exact if_congr (by omega) rfl rfl

lemma read (h : ScanInvariant bs s) (hbs : 0 < bs) (rd : ℕ → Bool) (modeOf : ℕ → Option ℕ) :
    ScanInvariant bs (s.read bs rd modeOf) := by
  have hread := ext2Readdir_spec rd modeOf hbs h.wellFormed h.cursor
  refine ⟨h.wellFormed, h.distinct, hread.cursor, fun e he => h.counts_read hread he,
    fun hend e he => ?_⟩
  obtain ⟨r, hr, hre, hcount⟩ := h.counts_read hread he
  refine hcount.trans (if_pos ?_)
  rcases Bool.or_eq_true _ _ ▸ hend with hend | hend
  · -- it was returned before the last end, so it lay before the cursor
    obtain ⟨x, hx, hxe, hxcount⟩ := h.counts e he
    obtain ⟨hri, rfl⟩ := entry_eq_some.1 hre
    obtain ⟨hxi, hxn⟩ := entry_eq_some.1 hxe
    obtain rfl := h.distinct.same_record hx hr hxi hri (congrArg Entry.name hxn).symm
    rw [h.ended hend _ he] at hxcount
    by_contra hge
    have hle := hread.le
    rw [if_neg (by omega)] at hxcount
    cases hxcount
  · have hlast := hread.finished (ReadResult.eq_finished hend)
    have := recordsAt_bounds h.wellFormed hr
    omega

lemma edit (h : ScanInvariant bs s) (hw : WellFormed bs dir) (hd : Distinct bs dir)
    (hk : Kept gone (dirRecords bs s.dir) (dirRecords bs dir))
    (hgone : ∀ e ∈ entries bs dir, ¬ gone e.name)
    (hcur : s.pos % bs ≠ 0 → ∀ r ∈ dirRecords bs s.dir, r.off = s.pos → r.inode ≠ 0 → ¬ gone r.name) :
    ScanInvariant bs (s.edit bs dir) where
  wellFormed := hw
  distinct := hd
  cursor := by
    by_cases hzero : s.pos % bs = 0
    · exact .inl hzero
    · obtain ⟨r, hr, hrp⟩ := h.cursor.resolve_left hzero
      rcases hk r hr with ⟨hri, hrg⟩ | ⟨y, hy, hoff, -⟩
      · exact absurd hrg (hcur hzero r hr hrp hri)
      · exact .inr ⟨y, hy, hoff.trans hrp⟩
  counts e he := by
    obtain ⟨he, hnew⟩ := List.mem_filter.1 he
    have hnot := hgone e (by simpa using hnew)
    obtain ⟨r, hr, hre, hcount⟩ := h.counts e he
    obtain ⟨hri, hrn⟩ := entry_eq_some.1 hre
    have hname : r.name = e.name := by rw [hrn]
    rcases hk r hr with ⟨-, hrg⟩ | ⟨y, hy, hoff, hentry⟩
    · exact absurd (hname ▸ hrg) hnot
    · exact ⟨y, hy, (hentry hri (hname ▸ hnot)).trans hre, hoff ▸ hcount⟩
  ended hend e he := h.ended hend e (List.mem_of_mem_filter he)

lemma step (hs : BlockSize bs) (h : ScanInvariant bs s) {a : ScanAction}
    (hst : ((scans bs dir).guarded (SparesCursor bs)).step s a t) : ScanInvariant bs t := by
  obtain ⟨hspare, hst⟩ := hst
  have hbs : 0 < bs := lt_of_lt_of_le (by decide) hs.le
  cases a with
  | read rd modeOf =>
    obtain rfl := hst
    exact h.read hbs rd modeOf
  | add name ino ft rd g =>
    obtain ⟨hi, hno, rfl⟩ := hst
    obtain ⟨hw, hr⟩ := dirAdd_spec rd name ft hs hi h.wellFormed g
    refine h.edit hw ?_ (dirAdd_kept rd hs hi h.wellFormed g) (fun _ _ => id) fun _ _ _ _ _ => id
    rcases hr with ⟨hrep, -, -⟩ | ⟨-, hsame⟩
    · exact distinct_insert hrep hno h.distinct
    · rw [hsame]
      exact h.distinct
  | remove name rd written =>
    obtain rfl := hst
    obtain ⟨hw, hr⟩ := dirRemove_spec rd name hs h.wellFormed written
    rcases hr with ⟨e, he, hrep, -⟩ | ⟨-, hsame, -⟩ | ⟨-, hsame, -⟩
    · refine h.edit hw (distinct_erase hrep h.distinct) (dirRemove_kept rd hs h.wellFormed written)
        (fun x hx hname => ?_) hspare
      obtain ⟨l, m, hold, hnew⟩ := hrep
      have hd := h.distinct
      rw [Distinct, hold, List.append_assoc, List.singleton_append, List.map_append, List.map_cons,
        List.nodup_middle, List.nodup_cons, ← List.map_append] at hd
      rw [hnew, List.append_nil] at hx
      exact hd.1 (List.mem_map.2 ⟨x, hx, hname.trans he.symm⟩)
    · rw [hsame] at hw ⊢
      exact h.edit hw h.distinct (.refl (fun _ => False) _) (fun _ _ => id) fun _ _ _ _ _ => id
    · rw [hsame] at hw ⊢
      exact h.edit hw h.distinct (.refl (fun _ => False) _) (fun _ _ => id) fun _ _ _ _ _ => id

lemma scansOnce (h : ScanInvariant bs s) (hbs : 0 < bs) : ScansOnce bs s where
  live rd modeOf d hd := by
    have hread := ext2Readdir_spec rd modeOf hbs h.wellFormed h.cursor
    obtain ⟨r, hr, -, -, hri, d', hd', hname, hino⟩ := hread.entry d hd
    obtain rfl := ReadResult.entry.inj (hd.symm.trans hd')
    exact ⟨⟨r.name, r.inode, r.fileType⟩, mem_entries.2 ⟨r, hr, entry_eq_some.2 ⟨hri, rfl⟩⟩,
      hname.symm, hino.symm⟩
  once := h.ended

end ScanInvariant

theorem scans_once (hs : BlockSize bs) (hw : WellFormed bs dir) (hd : Distinct bs dir)
    (h : ((scans bs dir).guarded (SparesCursor bs)).Reachable s) : ScansOnce bs s := by
  refine ScanInvariant.scansOnce (h.invariant ?_ fun s a t hi hst => hi.step hs hst)
    (lt_of_lt_of_le (by decide) hs.le)
  intro s hinit
  rw [show s = .start bs dir from hinit]
  exact .start hw hd

section TwoNames

def pair : Block := setEntry (setRecLen (setEntry (setRecLen (fun _ => 0) 0 12) 0 11 1 [97]) 12 1012)
  12 12 1 [98]

lemma pair_tiled : Tiled 1024 pair 0 [⟨0, 11, 12, 1, [97]⟩, ⟨12, 12, 1012, 1, [98]⟩] 1024 := by
  refine ⟨by decide, ⟨by decide, by decide, by decide, by decide⟩, by decide,
    ⟨by decide, by decide, by decide, by decide⟩, rfl⟩

lemma pair_wellFormed : WellFormed 1024 [some pair] := by
  intro b hb
  rw [Option.some.inj (List.mem_singleton.1 hb)]
  exact pair_tiled.blockTiled

lemma pair_distinct : Distinct 1024 [some pair] := by
  have : entries 1024 [some pair] = [⟨[97], 11, 1⟩, ⟨[98], 12, 1⟩] := by
    simp [entries, pair_tiled.blockEntries, live, Rec.entry]
  simp [Distinct, this]

def afterFirst : Scan := (Scan.start 1024 [some pair]).read 1024 allReads fun _ => none

theorem scans_once_pair : ScansOnce 1024
    (afterFirst.edit 1024 (dirRemove 1024 allReads afterFirst.dir [97] true).2) :=
  scans_once (by decide) pair_wellFormed pair_distinct
    (.step (.remove [97] allReads true)
      (.step (.read allReads fun _ => none) (.init rfl) ⟨trivial, rfl⟩) ⟨by decide, rfl⟩)

theorem not_scans_once_stale : ¬ ∀ dir, WellFormed 1024 dir → Distinct 1024 dir →
    ∀ s, (scans 1024 dir).Reachable s → ScansOnce 1024 s := by
  intro h
  have hrun : (scans 1024 [some pair]).Reachable
      (afterFirst.edit 1024 (dirRemove 1024 allReads afterFirst.dir [98] true).2) :=
    .step (.remove [98] allReads true) (.step (.read allReads fun _ => none) (.init rfl) rfl) rfl
  obtain ⟨e, he, hname, -⟩ := (h _ pair_wellFormed pair_distinct _ hrun).live allReads
    (fun _ => none) ⟨12, 0x8000, [98]⟩ rfl
  revert e
  decide

end TwoNames

end MyOS.Fs.Ext2
