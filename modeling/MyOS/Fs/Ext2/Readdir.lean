import MyOS.Fs.Ext2.Entries

/-! `ext2_readdir`, and where the records of a directory stand for a cursor that counts bytes. -/

namespace MyOS.Fs.Ext2

structure Dirent where
  ino : ℕ
  type : ℕ
  name : Name
  deriving DecidableEq

def sIfmt : ℕ := 0xF000

def ftToMode (ft : UInt8) : ℕ :=
  [0, 0x8000, 0x4000, 0x2000, 0x6000, 0x1000, 0xC000, 0xA000].getD ft.toNat 0

def direntAt (modeOf : ℕ → Option ℕ) (b : Block) (d : ℕ) : Dirent :=
  let type := ftToMode (fileTypeAt b d)
  { ino := inodeAt b d
    type :=
      if type = 0 then
        match modeOf (inodeAt b d) with
        | some mode => mode &&& sIfmt
        | none => 0
      else type
    name := nameAt b d }

inductive ReadResult
  | entry (d : Dirent)
  | finished
  | failed

/-- The loop of `ext2_readdir`: a round moves the cursor, so that there are no more of them than
bytes after it. -/
def readdirLoop (bs : ℕ) (rd : ℕ → Bool) (modeOf : ℕ → Option ℕ) (dir : Dir) :
    ℕ → ℕ → ReadResult × ℕ
  | 0, pos => (.finished, pos)
  | k + 1, pos =>
    if pos < dir.length * bs then
      let off := pos % bs
      if rd (pos / bs) then
        match dir[pos / bs]? with
        | some (some b) =>
          if direntOk bs b off then
            if inodeAt b off ≠ 0 then (.entry (direntAt modeOf b off), pos + recLenAt b off)
            else readdirLoop bs rd modeOf dir k (pos + recLenAt b off)
          else readdirLoop bs rd modeOf dir k ((pos / bs + 1) * bs)
        | _ => readdirLoop bs rd modeOf dir k ((pos / bs + 1) * bs)
      else (.failed, pos)
    else (.finished, pos)

def ext2Readdir (bs : ℕ) (rd : ℕ → Bool) (modeOf : ℕ → Option ℕ) (dir : Dir) (pos : ℕ) :
    ReadResult × ℕ :=
  readdirLoop bs rd modeOf dir (dir.length * bs - pos) pos

def Rec.shift (start : ℕ) (r : Rec) : Rec := { r with off := start + r.off }

def blockRecords (bs : ℕ) : Option Block → List Rec
  | none => []
  | some b => records bs b

def recordsAt (bs : ℕ) : ℕ → Dir → List Rec
  | _, [] => []
  | start, o :: rest =>
    (blockRecords bs o).map (Rec.shift start) ++ recordsAt bs (start + bs) rest

def dirRecords (bs : ℕ) (dir : Dir) : List Rec := recordsAt bs 0 dir

variable {bs start off stop pos : ℕ} {b b' : Block} {o : Option Block} {dir pre post : Dir}
  {r x y : Rec} {rs rs' : List Rec} {name : Name} {ino : ℕ} {ft : UInt8}

section Places

lemma live_shift (start : ℕ) (rs : List Rec) : live (rs.map (Rec.shift start)) = live rs :=
  List.filterMap_map

lemma live_recordsAt (start : ℕ) (dir : Dir) : live (recordsAt bs start dir) = entries bs dir := by
  induction dir generalizing start with
  | nil => rfl
  | cons o rest ih =>
    rw [recordsAt, live_append, live_shift, ih]
    cases o <;> rfl

lemma recordsAt_append (start : ℕ) (pre post : Dir) : recordsAt bs start (pre ++ post) =
    recordsAt bs start pre ++ recordsAt bs (start + pre.length * bs) post := by
  induction pre generalizing start with
  | nil => simp [recordsAt]
  | cons o rest ih =>
    have hnext : start + bs + rest.length * bs = start + (rest.length + 1) * bs := by ring
    rw [List.cons_append, recordsAt, recordsAt, ih, List.append_assoc, hnext, List.length_cons]

lemma dirRecords_split : dirRecords bs (pre ++ o :: post) =
    dirRecords bs pre ++ (blockRecords bs o).map (Rec.shift (pre.length * bs)) ++
      recordsAt bs (pre.length * bs + bs) post := by
  rw [dirRecords, recordsAt_append, recordsAt, Nat.zero_add, ← List.append_assoc]
  rfl

lemma Tiled.bounds (h : Tiled bs b off rs stop) (hr : r ∈ rs) :
    off ≤ r.off ∧ r.off + r.recLen ≤ stop ∧ 8 ≤ r.recLen := by
  obtain ⟨l, t, rfl⟩ := List.append_of_mem hr
  obtain ⟨hl, -, hfits, ht⟩ := h.split
  exact ⟨hl.le, ht.le, hfits.header⟩

lemma recordsAt_bounds (hw : WellFormed bs dir) (hr : r ∈ recordsAt bs start dir) :
    start ≤ r.off ∧ r.off + r.recLen ≤ start + dir.length * bs ∧ 8 ≤ r.recLen := by
  induction dir generalizing start with
  | nil => cases hr
  | cons o rest ih =>
    have hnext : start + (o :: rest).length * bs = start + bs + rest.length * bs := by
      rw [List.length_cons]
      ring
    rw [hnext]
    rcases List.mem_append.1 hr with hr | hr
    · obtain ⟨x, hx, rfl⟩ := List.mem_map.1 hr
      cases o with
      | none => cases hx
      | some b =>
        obtain ⟨-, hend, hlen⟩ := Tiled.bounds (hw b List.mem_cons_self) hx
        simp only [Rec.shift]
        omega
    · obtain ⟨hlow, hend, hlen⟩ := ih (fun b hb => hw b (List.mem_cons_of_mem _ hb)) hr
      omega

lemma mem_block (hw : WellFormed bs (pre ++ o :: post)) (hr : r ∈ dirRecords bs (pre ++ o :: post))
    (hlow : pre.length * bs ≤ r.off) (hhigh : r.off < pre.length * bs + bs) :
    ∃ x ∈ blockRecords bs o, r = x.shift (pre.length * bs) := by
  have hpre : WellFormed bs pre := fun b hb => hw b (List.mem_append_left _ hb)
  have hpost : WellFormed bs post := fun b hb =>
    hw b (List.mem_append_right _ (List.mem_cons_of_mem _ hb))
  rw [dirRecords_split] at hr
  rcases List.mem_append.1 hr with hr | hr
  · rcases List.mem_append.1 hr with hr | hr
    · have := recordsAt_bounds hpre hr
      omega
    · obtain ⟨x, hx, rfl⟩ := List.mem_map.1 hr
      exact ⟨x, hx, rfl⟩
  · have := recordsAt_bounds hpost hr
    omega

end Places

section Reading

def OnRecord (bs : ℕ) (dir : Dir) (pos : ℕ) : Prop :=
  pos % bs = 0 ∨ ∃ r ∈ dirRecords bs dir, r.off = pos

def ReadResult.Shows (res : ReadResult) (r : Rec) : Prop :=
  ∃ d, res = .entry d ∧ d.name = r.name ∧ d.ino = r.inode

structure ReadTo (bs : ℕ) (dir : Dir) (pos : ℕ) (res : ReadResult) (pos' : ℕ) : Prop where
  le : pos ≤ pos'
  cursor : OnRecord bs dir pos'
  passed : ∀ r ∈ dirRecords bs dir, pos ≤ r.off → r.off < pos' → r.inode ≠ 0 → res.Shows r
  entry : ∀ d, res = .entry d →
    ∃ r ∈ dirRecords bs dir, pos ≤ r.off ∧ r.off < pos' ∧ r.inode ≠ 0 ∧ res.Shows r
  finished : res = .finished → dir.length * bs ≤ pos'

variable {mid pos' k : ℕ} {res : ReadResult} {rd : ℕ → Bool} {modeOf : ℕ → Option ℕ}

lemma ReadTo.skip (h : ReadTo bs dir mid res pos') (hmid : pos ≤ mid)
    (hfree : ∀ r ∈ dirRecords bs dir, pos ≤ r.off → r.off < mid → r.inode = 0) :
    ReadTo bs dir pos res pos' where
  le := hmid.trans h.le
  cursor := h.cursor
  passed r hr hlow hhigh hi := by
    rcases Nat.lt_or_ge r.off mid with hlt | hge
    · exact absurd (hfree r hr hlow hlt) hi
    · exact h.passed r hr hge hhigh hi
  entry d hd := by
    obtain ⟨r, hr, hlow, hrest⟩ := h.entry d hd
    exact ⟨r, hr, hmid.trans hlow, hrest⟩
  finished := h.finished

lemma ReadTo.stay (hcur : OnRecord bs dir pos) (hres : ∀ d, res ≠ .entry d)
    (hend : res = .finished → dir.length * bs ≤ pos) : ReadTo bs dir pos res pos where
  le := le_rfl
  cursor := hcur
  passed _ _ hlow hhigh := absurd hlow (not_le.2 hhigh)
  entry d hd := absurd hd (hres d)
  finished := hend

lemma OnRecord.block (h : OnRecord bs (pre ++ some b :: post) pos) (hbs : 0 < bs)
    (hw : WellFormed bs (pre ++ some b :: post)) (hpos : pos / bs = pre.length) :
    ∃ l r t, records bs b = l ++ r :: t ∧ r.off = pos % bs := by
  have hb : BlockTiled bs b := hw b (by simp)
  have hsum : pre.length * bs + pos % bs = pos := by
    rw [← hpos]
    exact Nat.div_add_mod' pos bs
  rcases h with hzero | ⟨r, hr, hrp⟩
  · rw [hzero]
    rw [BlockTiled] at hb
    cases hrs : records bs b with
    | nil =>
      rw [hrs] at hb
      exact absurd hb hbs.ne
    | cons r t =>
      rw [hrs] at hb
      exact ⟨[], r, t, rfl, by rw [← hb.1]; rfl⟩
  · have hlt : pos % bs < bs := Nat.mod_lt _ hbs
    obtain ⟨x, hx, rfl⟩ := mem_block hw hr (by omega) (by omega)
    obtain ⟨l, t, hrs⟩ := List.append_of_mem (show x ∈ records bs b from hx)
    have hoff : pre.length * bs + x.off = pos := hrp
    exact ⟨l, x, t, hrs, by omega⟩

lemma passed_record (hw : WellFormed bs (pre ++ some b :: post))
    (hpos : pos / bs = pre.length) {l t : List Rec} (hrs : records bs b = l ++ r :: t)
    (hr : r.off = pos % bs) :
    OnRecord bs (pre ++ some b :: post) (pos + r.recLen) ∧
      r.shift (pre.length * bs) ∈ dirRecords bs (pre ++ some b :: post) ∧
      ∀ x ∈ dirRecords bs (pre ++ some b :: post), pos ≤ x.off → x.off < pos + r.recLen →
        x = r.shift (pre.length * bs) := by
  have hb : Tiled bs b 0 (l ++ r :: t) bs := by
    rw [← hrs]
    exact hw b (by simp)
  have hsum : pre.length * bs + pos % bs = pos := by
    rw [← hpos]
    exact Nat.div_add_mod' pos bs
  obtain ⟨hl, -, hfits, ht⟩ := hb.split
  have hinside := hfits.inside
  have hmem : ∀ x ∈ l ++ r :: t, x.shift (pre.length * bs) ∈ dirRecords bs (pre ++ some b :: post) := by
    intro x hx
    rw [dirRecords_split, blockRecords, hrs]
    exact List.mem_append_left _ (List.mem_append_right _ (List.mem_map_of_mem hx))
  refine ⟨?_, hmem r (by simp), fun x hx hlow hhigh => ?_⟩
  · cases t with
    | nil =>
      have hend : r.off + r.recLen = bs := ht
      have hnext : pos + r.recLen = (pre.length + 1) * bs := by
        rw [Nat.add_mul, one_mul]
        omega
      exact .inl (by rw [hnext, Nat.mul_mod_left])
    | cons y t =>
      have hy : y.off = r.off + r.recLen := by rw [← ht.1]; rfl
      refine .inr ⟨y.shift (pre.length * bs), hmem y (by simp), ?_⟩
      simp only [Rec.shift]
      omega
  · obtain ⟨y, hy, rfl⟩ := mem_block hw hx (by omega) (by omega)
    rw [blockRecords, hrs] at hy
    simp only [Rec.shift] at hlow hhigh
    rcases List.mem_append.1 hy with hy | hy
    · have := hl.bounds hy
      omega
    · rcases List.mem_cons.1 hy with rfl | hy
      · rfl
      · have := ht.bounds hy
        omega

lemma readdirLoop_spec (hbs : 0 < bs) (hw : WellFormed bs dir) (hcur : OnRecord bs dir pos)
    (hk : dir.length * bs - pos ≤ k) :
    ReadTo bs dir pos (readdirLoop bs rd modeOf dir k pos).1 (readdirLoop bs rd modeOf dir k pos).2 := by
  induction k generalizing pos with
  | zero => exact .stay hcur (by simp [readdirLoop]) fun _ => Nat.sub_eq_zero_iff_le.1 (Nat.le_zero.1 hk)
  | succ k ih =>
    rw [readdirLoop]
    split
    swap
    · rename_i hend
      exact .stay hcur (by simp) fun _ => not_lt.1 hend
    rename_i hlt
    simp only
    split
    swap
    · exact .stay hcur (by simp) (by simp)
    have hi : pos / bs < dir.length := Nat.div_lt_of_lt_mul (by rwa [Nat.mul_comm] at hlt)
    obtain ⟨pre, o, post, rfl, hpre⟩ : ∃ pre o post, dir = pre ++ o :: post ∧ pos / bs = pre.length :=
      ⟨dir.take (pos / bs), dir[pos / bs], dir.drop (pos / bs + 1), by simp, by simp; omega⟩
    have hsum : pre.length * bs + pos % bs = pos := by
      rw [← hpre]
      exact Nat.div_add_mod' pos bs
    have hmod : pos % bs < bs := Nat.mod_lt _ hbs
    have hget : (pre ++ o :: post)[pos / bs]? = some o := by simp [hpre]
    rw [hget]
    cases o with
    | none =>
      -- a hole has no records
      have hnext : (pos / bs + 1) * bs = pre.length * bs + bs := by rw [hpre, Nat.add_mul, one_mul]
      refine (ih (.inl (Nat.mul_mod_left _ _)) (by omega)).skip (by omega) fun r hr hlow hhigh => ?_
      obtain ⟨x, hx, -⟩ := mem_block hw hr (by omega) (by omega)
      cases hx
    | some b =>
      obtain ⟨l, r, t, hrs, hr⟩ := hcur.block hbs hw hpre
      obtain ⟨hnext, hmem, honly⟩ := passed_record hw hpre hrs hr
      have hb : Tiled bs b 0 (l ++ r :: t) bs := by
        rw [← hrs]
        exact hw b (by simp)
      obtain ⟨-, hat, hfits, -⟩ := hb.split
      have hheader := hfits.header
      rw [hr] at hat
      have hino : inodeAt b (pos % bs) = r.inode := congrArg Rec.inode hat
      have hlen : recLenAt b (pos % bs) = r.recLen := congrArg Rec.recLen hat
      have hname : nameAt b (pos % bs) = r.name := congrArg Rec.name hat
      simp only [direntOk_iff.2 (hat ▸ hfits), hino, hlen, if_true]
      split
      · rename_i hlive
        have hshows : ∀ x ∈ dirRecords bs (pre ++ some b :: post), pos ≤ x.off →
            x.off < pos + r.recLen →
            (ReadResult.entry (direntAt modeOf b (pos % bs))).Shows x := by
          intro x hx hlow hhigh
          rw [honly x hx hlow hhigh]
          exact ⟨_, rfl, hname, hino⟩
        have hplace : (r.shift (pre.length * bs)).off = pos := by
          simp only [Rec.shift]
          omega
        exact ⟨by omega, hnext, fun x hx hlow hhigh _ => hshows x hx hlow hhigh, fun d _ =>
          ⟨_, hmem, hplace.ge, by omega, hlive, hshows _ hmem hplace.ge (by omega)⟩, by simp⟩
      · rename_i hfree
        refine (ih hnext (by omega)).skip (by omega) fun x hx hlow hhigh => ?_
        rw [honly x hx hlow hhigh]
        exact not_not.1 hfree

lemma ext2Readdir_spec (rd : ℕ → Bool) (modeOf : ℕ → Option ℕ) (hbs : 0 < bs)
    (hw : WellFormed bs dir) (hcur : OnRecord bs dir pos) :
    ReadTo bs dir pos (ext2Readdir bs rd modeOf dir pos).1 (ext2Readdir bs rd modeOf dir pos).2 :=
  readdirLoop_spec hbs hw hcur le_rfl

end Reading

section Editing

/-- Of the old records, only live ones of the names `gone` may have lost their place, and the others
show what they showed. -/
def Kept (gone : Name → Prop) (rs rs' : List Rec) : Prop :=
  ∀ x ∈ rs, (x.inode ≠ 0 ∧ gone x.name) ∨
    ∃ y ∈ rs', y.off = x.off ∧ (x.inode ≠ 0 → ¬ gone x.name → y.entry = x.entry)

variable {gone : Name → Prop}

lemma Kept.refl (gone : Name → Prop) (rs : List Rec) : Kept gone rs rs :=
  fun x hx => .inr ⟨x, hx, rfl, fun _ _ => rfl⟩

lemma Kept.shift (h : Kept gone rs rs') (start : ℕ) :
    Kept gone (rs.map (Rec.shift start)) (rs'.map (Rec.shift start)) := by
  intro z hz
  obtain ⟨x, hx, rfl⟩ := List.mem_map.1 hz
  rcases h x hx with hgone | ⟨y, hy, hoff, hentry⟩
  · exact .inl hgone
  · exact .inr ⟨_, List.mem_map_of_mem hy, congrArg (start + ·) hoff, hentry⟩

lemma Kept.within (h : Kept gone rs rs') (l t : List Rec) :
    Kept gone (l ++ rs ++ t) (l ++ rs' ++ t) := by
  intro x hx
  have hstays : ∀ z, z ∈ l ∨ z ∈ t → ∃ y ∈ l ++ rs' ++ t, y.off = z.off ∧
      (z.inode ≠ 0 → ¬ gone z.name → y.entry = z.entry) := fun z hz =>
    ⟨z, by rcases hz with hz | hz <;> simp [hz], rfl, fun _ _ => rfl⟩
  rcases List.mem_append.1 hx with hx | hx
  · rcases List.mem_append.1 hx with hx | hx
    · exact .inr (hstays x (.inl hx))
    · rcases h x hx with hgone | ⟨y, hy, hy'⟩
      · exact .inl hgone
      · exact .inr ⟨y, by simp [hy], hy'⟩
  · exact .inr (hstays x (.inr hx))

lemma Kept.block (h : Kept gone (records bs b) (records bs b')) :
    Kept gone (dirRecords bs (pre ++ some b :: post)) (dirRecords bs (pre ++ some b' :: post)) := by
  rw [dirRecords_split, dirRecords_split]
  exact (h.shift _).within _ _

lemma kept_added : Kept gone [r] (added r ino ft name) := by
  intro x hx
  obtain rfl := List.mem_singleton.1 hx
  by_cases hi : x.inode = 0
  · exact .inr ⟨⟨x.off, ino, x.recLen, ft, name⟩, by simp [added, hi], rfl, fun h => absurd hi h⟩
  · exact .inr ⟨{ x with recLen := recSize x.name.length }, by simp [added, hi], rfl,
      fun _ _ => rfl⟩

lemma dirAdd_kept (rd : ℕ → Bool) (hs : BlockSize bs) (hi : ino < 2 ^ 32) (hw : WellFormed bs dir)
    (g : Growth) :
    Kept (fun _ => False) (dirRecords bs dir) (dirRecords bs (dirAdd bs rd dir name ino ft g).2) := by
  rw [dirAdd]
  split
  · exact .refl _ _
  rename_i hn
  split
  · exact .refl _ _
  · rename_i hit
    obtain ⟨pre, b, b', post, rfl, rfl, hwalk, -⟩ := dirIterate_stopped hit
    obtain ⟨l, r, t, hrs, hnew⟩ := records_add hs.lt hi (not_lt.1 hn) (hw b (by simp)) hwalk
    refine Kept.block ?_
    rw [hrs, hnew.records, List.append_cons]
    exact kept_added.within l t
  · split
    · exact .refl _ _
    · split
      · intro x hx
        refine .inr ⟨x, ?_, rfl, fun _ _ => rfl⟩
        rw [dirRecords, recordsAt_append]
        exact List.mem_append_left _ hx
      · exact .refl _ _

lemma dirRemove_kept (rd : ℕ → Bool) (hs : BlockSize bs) (hw : WellFormed bs dir) (written : Bool) :
    Kept (· = name) (dirRecords bs dir) (dirRecords bs (dirRemove bs rd dir name written).2) := by
  rw [dirRemove]
  split
  · exact .refl _ _
  · exact .refl _ _
  · rename_i hit
    obtain ⟨pre, b, b', post, rfl, rfl, hwalk, -⟩ := dirIterate_stopped hit
    obtain ⟨l, r, t, hrs, hino, hname, hnew⟩ := records_remove hs.lt (hw b (by simp)) hwalk
    refine Kept.block ?_
    rcases hnew with ⟨rfl, hnew⟩ | ⟨l, p, rfl, hnew⟩
    · rw [hrs, hnew.records]
      have hfreed : Kept (· = name) [r] [{ r with inode := 0 }] := by
        intro x hx
        obtain rfl := List.mem_singleton.1 hx
        exact .inr ⟨_, List.mem_singleton_self _, rfl, fun _ hne => absurd hname hne⟩
      exact hfreed.within [] t
    · rw [hrs, hnew.records]
      have hmerge : Kept (· = name) [p, r] [{ p with recLen := p.recLen + r.recLen }] := by
        intro x hx
        rcases List.mem_pair.1 hx with rfl | rfl
        · exact .inr ⟨_, List.mem_singleton_self _, rfl, fun _ _ => rfl⟩
        · exact .inl ⟨hino, hname⟩
      simpa using hmerge.within l t

end Editing

end MyOS.Fs.Ext2
