import MyOS.Fs.Ext2.DirectoryRuns
import MyOS.Library.Arithmetic

/-! `ext2_rename` over two directories, their link counts and the entry `..` of what moves. -/

namespace MyOS.Fs.Ext2

open Library Function

structure Inode where
  mode : ℕ
  nlink : ℕ
  dir : Dir

structure Ext2Fs where
  inodesCount : ℕ
  inode : ℕ → Inode

inductive RenameError
  | noent
  | inval
  | isdir
  | notdir
  | notempty
  | dir (e : DirError)
  deriving DecidableEq

/-- What the disk and the memory do during one call: the reads and the final write of each
`dir_iterate`, in the order of the calls, whether `ext2_iget` gets the inode, and the block that
`bmap` finds for a longer directory. -/
structure RenameIo where
  block : Except DirError Block
  srcReads : ℕ → Bool := allReads
  srcGot : Bool := true
  dstReads : ℕ → Bool := allReads
  dstGot : Bool := true
  upReads : ℕ → ℕ → Bool := fun _ => allReads
  upGot : ℕ → Bool := fun _ => true
  emptyReads : ℕ → Bool := allReads
  removeReads : ℕ → Bool := allReads
  removeWritten : Bool := true
  addReads : ℕ → Bool := allReads
  blockRead : Bool := true
  addWritten : Bool := true
  oldReads : ℕ → Bool := allReads
  oldWritten : Bool := true
  dotdotReads : ℕ → Bool := allReads

def rootIno : ℕ := 2

def modeToFt (mode : ℕ) : UInt8 :=
  match mode &&& 0xF000 with
  | 0x8000 => 1
  | 0x4000 => 2
  | 0x2000 => 3
  | 0x6000 => 4
  | 0x1000 => 5
  | 0xA000 => 7
  | _ => 0

namespace Ext2Fs

variable (v : Ext2Fs) (bs : ℕ)

def isDir (i : ℕ) : Bool := (v.inode i).mode &&& 0xF000 = 0x4000

def setDir (i : ℕ) (dir : Dir) : Ext2Fs :=
  { v with inode := update v.inode i { v.inode i with dir := dir } }

def setNlink (i n : ℕ) : Ext2Fs :=
  { v with inode := update v.inode i { v.inode i with nlink := n } }

def iget (got : Bool) (ino : ℕ) : Option ℕ :=
  if 1 ≤ ino ∧ ino ≤ v.inodesCount ∧ got then some ino else none

def lookup (rd : ℕ → Bool) (got : Bool) (dir : ℕ) (name : Name) : Option ℕ :=
  let ino := dirFind bs rd (v.inode dir).dir name
  if ino ≠ 0 then v.iget got ino else none

def ancestorLoop (io : RenameIo) (anc : ℕ) : ℕ → ℕ → Bool
  | 0, _ => true
  | guard + 1, ino =>
    if ino = anc then true
    else if ino = rootIno then false
    else match v.iget (io.upGot guard) ino with
      | none => false
      | some d =>
        let parent := dirFind bs (io.upReads guard) (v.inode d).dir dotdot
        if parent = 0 ∨ parent = ino then false else ancestorLoop io anc guard parent

def isAncestor (io : RenameIo) (anc dir : ℕ) : Bool := v.ancestorLoop bs io anc 4096 dir

/-- Of a call: `none` when `mutex_lock` panics, else the error and the volume. -/
abbrev Result := Option (Option RenameError × Ext2Fs)

def removeTarget (io : RenameIo) (odir ndir : ℕ) (nname : Name) (isDir : Bool) (dst : ℕ) :
    Result :=
  let r := dirRemove bs io.removeReads (v.inode ndir).dir nname io.removeWritten
  let v := v.setDir ndir r.2
  match r.1 with
  | some e => some (some (.dir e), v)
  | none =>
    if dst = odir ∨ dst = ndir then none
    else
      let v := v.setNlink dst (if isDir then 0 else sub32 (v.inode dst).nlink 1)
      some (none, if isDir then v.setNlink ndir (sub32 (v.inode ndir).nlink 1) else v)

def replaceTarget (io : RenameIo) (odir ndir : ℕ) (nname : Name) (isDir : Bool) (dst : ℕ) :
    Result :=
  if v.isDir dst ≠ isDir then some (some (if v.isDir dst then .isdir else .notdir), v)
  else if isDir then
    if dst = odir ∨ dst = ndir then none
    else if dirIsEmpty bs io.emptyReads (v.inode dst).dir then
      v.removeTarget bs io odir ndir nname isDir dst
    else some (some .notempty, v)
  else v.removeTarget bs io odir ndir nname isDir dst

def setParent (io : RenameIo) (odir ndir src : ℕ) : Result :=
  if v.isDir src ∧ odir ≠ ndir then
    if src = odir ∨ src = ndir then none
    else
      let v := v.setDir src (setDotdot bs io.dotdotReads (v.inode src).dir ndir)
      let v := v.setNlink odir (sub32 (v.inode odir).nlink 1)
      some (none, v.setNlink ndir (add32 (v.inode ndir).nlink 1))
  else some (none, v)

def removeOld (io : RenameIo) (odir : ℕ) (oname : Name) (ndir src : ℕ) : Result :=
  let r := dirRemove bs io.oldReads (v.inode odir).dir oname io.oldWritten
  let v := v.setDir odir r.2
  match r.1 with
  | some e => some (some (.dir e), v)
  | none => v.setParent bs io odir ndir src

def moveName (io : RenameIo) (odir : ℕ) (oname : Name) (ndir : ℕ) (nname : Name) (src : ℕ) :
    Result :=
  let r := dirAdd bs io.addReads (v.inode ndir).dir nname src (modeToFt (v.inode src).mode)
    { block := io.block, readable := io.blockRead, written := io.addWritten }
  let v := v.setDir ndir r.2
  match r.1 with
  | some e => some (some (.dir e), v)
  | none => v.removeOld bs io odir oname ndir src

def rename (io : RenameIo) (odir : ℕ) (oname : Name) (ndir : ℕ) (nname : Name) : Result :=
  match v.lookup bs io.srcReads io.srcGot odir oname with
  | none => some (some .noent, v)
  | some src =>
    let dst := v.lookup bs io.dstReads io.dstGot ndir nname
    if dst = some src then some (none, v)
    else if v.isDir src ∧ odir ≠ ndir ∧ v.isAncestor bs io src ndir then some (some .inval, v)
    else match dst with
      | none => v.moveName bs io odir oname ndir nname src
      | some dst =>
        match v.replaceTarget bs io odir ndir nname (v.isDir src) dst with
        | some (none, v) => v.moveName bs io odir oname ndir nname src
        | r => r

end Ext2Fs

section Room

variable {bs : ℕ} {dir : Dir} {name : Name} {r : Rec} {b : Block}

lemma Rec.name_le_nameMax (h : recAt b r.off = r) : r.name.length ≤ nameMax := by
  have hlen : (nameAt b r.off).length = nameLenAt b r.off := length_nameAt
  have hname : nameAt b r.off = r.name := congrArg Rec.name h
  rw [← hname, hlen]
  exact Nat.le_of_lt_succ (b (r.off + 6)).toNat_lt

lemma addVisit_of_room (ino : ℕ) (ft : UInt8) (prev : Option ℕ) (h : recAt b r.off = r)
    (hroom : r.inode = 0 ∧ recSize name.length ≤ r.recLen ∨
      recSize r.name.length + recSize name.length ≤ r.recLen) :
    addVisit name ino ft b r.off prev ≠ none := by
  have hino : inodeAt b r.off = r.inode := congrArg Rec.inode h
  have hlen : recLenAt b r.off = r.recLen := congrArg Rec.recLen h
  have hname : nameLenAt b r.off = r.name.length := by
    rw [← length_nameAt]
    exact congrArg (fun r => (Rec.name r).length) h
  simp only [addVisit, hino, hlen, hname]
  by_cases h0 : r.inode = 0
  · simp only [h0, ne_eq, not_true_eq_false, if_false]
    rw [if_neg (by omega)]
    exact Option.some_ne_none _
  · simp only [h0, ne_eq, not_false_eq_true, if_true]
    rw [if_neg (by omega)]
    exact Option.some_ne_none _

lemma walk_add_of_room {ss : List Rec} (ino : ℕ) (ft : UInt8) (hb : Tiled bs b 0 ss bs)
    (hr : r ∈ ss) (hroom : r.inode = 0 ∧ recSize name.length ≤ r.recLen ∨
      recSize r.name.length + recSize name.length ≤ r.recLen) :
    walk bs (addVisit name ino ft) b bs 0 none ≠ none := by
  intro hw
  rw [Tiled.walk_block hb] at hw
  obtain ⟨p, hp⟩ := scan_none hw r hr
  exact addVisit_of_room ino ft p (hb.recAt hr) hroom hp

lemma walk_remove_room {x : Block × Unit} (hs : BlockSize bs) (hb : BlockTiled bs b)
    (hx : walk bs (removeVisit name) b bs 0 none = some x) (ino : ℕ) (ft : UInt8) :
    name.length ≤ nameMax ∧ walk bs (addVisit name ino ft) x.1 bs 0 none ≠ none := by
  obtain ⟨l, r, t, hrs, -, hname, hnew⟩ := records_remove hs.lt hb hx
  have hb' : Tiled bs b 0 (l ++ r :: t) bs := hrs ▸ hb
  obtain ⟨hl, hat, hr, -⟩ := hb'.split
  have hfit : recSize name.length ≤ r.recLen := hname ▸ hr.name
  refine ⟨hname ▸ Rec.name_le_nameMax hat, ?_⟩
  rcases hnew with ⟨-, hnew⟩ | ⟨l', p, rfl, hnew⟩
  · apply walk_add_of_room ino ft hnew List.mem_cons_self
    exact .inl ⟨rfl, hfit⟩
  · have hp : p.Fits bs := by
      obtain ⟨-, -, hp, -⟩ := hl.split
      exact hp
    apply walk_add_of_room ino ft hnew (List.mem_append_right _ List.mem_cons_self)
    exact .inr (Nat.add_le_add hp.name hfit)

lemma dirAdd_of_removed (hs : BlockSize bs) (hw : WellFormed bs dir)
    (hr : (dirRemove bs allReads dir name true).1 = none) (ino : ℕ) (ft : UInt8) (g : Growth) :
    (dirAdd bs allReads (dirRemove bs allReads dir name true).2 name ino ft g).1 = none := by
  unfold dirRemove at hr ⊢
  cases hit : dirIterate bs allReads (removeVisit name) 0 dir with
  | failed => simp [hit] at hr
  | finished => simp [hit] at hr
  | stopped dir' a =>
    obtain ⟨pre, b, b', post, rfl, rfl, h, -⟩ := dirIterate_stopped hit
    obtain ⟨hn, hroom⟩ := walk_remove_room hs (hw b (by simp)) h ino ft
    unfold dirAdd
    rw [if_neg (not_lt.2 hn)]
    cases hadd : dirIterate bs allReads (addVisit name ino ft) 0 (pre ++ some b' :: post) with
    | stopped dir'' a' => rfl
    | failed =>
      obtain ⟨k, -, hk⟩ := dirIterate_failed hadd
      cases hk
    | finished =>
      have hpass := dirIterate_finished hadd pre.length (by simp)
      exact absurd (hpass.2 b' (by simp)) hroom

end Room

structure Sound (bs : ℕ) (dir : Dir) : Prop where
  wellFormed : WellFormed bs dir
  distinct : Distinct bs dir

def Dots (bs : ℕ) (dir : Dir) (self parent : ℕ) : Prop :=
  ∃ b rest r₀ r₁ t, dir = some b :: rest ∧ Tiled bs b 0 (r₀ :: r₁ :: t) bs ∧
    r₀.name = dot ∧ r₀.inode = self ∧ r₁.name = dotdot ∧ r₁.inode = parent

namespace Sound

variable {bs : ℕ} {dir : Dir} {name : Name}

lemma find_eq (h : Sound bs dir) : dirFind bs allReads dir = lookup (entries bs dir) :=
  funext fun _ => dirFind_eq h.wellFormed fun _ _ => rfl

lemma remove (hs : BlockSize bs) (h : Sound bs dir) (hname : dirFind bs allReads dir name ≠ 0) :
    (dirRemove bs allReads dir name true).1 = none ∧
      Sound bs (dirRemove bs allReads dir name true).2 ∧
      dirFind bs allReads (dirRemove bs allReads dir name true).2 =
        update (dirFind bs allReads dir) name 0 := by
  obtain ⟨hw, hr⟩ := dirRemove_spec allReads name hs h.wellFormed true
  rcases hr with ⟨e, he, hrep, hok⟩ | ⟨-, -, k, -, hk⟩ | ⟨-, -, hno⟩
  · have hsound : Sound bs (dirRemove bs allReads dir name true).2 :=
      ⟨hw, distinct_erase hrep h.distinct⟩
    refine ⟨?_, hsound, ?_⟩
    · rcases hok with hok | ⟨-, hok⟩
      · exact hok
      · cases hok
    · rw [hsound.find_eq, h.find_eq]
      exact lookup_erase hrep he h.distinct
  · cases hk
  · rw [h.find_eq] at hname
    exact absurd (lookup_of_not_mem hno) hname

lemma add {ino : ℕ} (hs : BlockSize bs) (h : Sound bs dir) (hi : ino < 2 ^ 32)
    (hname : dirFind bs allReads dir name = 0) (ft : UInt8) (block : Except DirError Block) :
    let r := dirAdd bs allReads dir name ino ft { block := block }
    r.1 ≠ none ∧ r.2 = dir ∨ r.1 = none ∧ Sound bs r.2 ∧
      dirFind bs allReads r.2 = update (dirFind bs allReads dir) name ino := by
  intro r
  have hes : ∀ e ∈ entries bs dir, e.inode ≠ 0 := fun e he => entries_inode he
  obtain ⟨hw, hr⟩ := dirAdd_spec allReads name ft hs hi h.wellFormed { block := block }
  rw [h.find_eq] at hname
  rcases hr with ⟨hrep, -, hok⟩ | hsame
  · right
    have hsound : Sound bs r.2 :=
      ⟨hw, distinct_insert hrep ((lookup_eq_zero hes).1 hname) h.distinct⟩
    refine ⟨?_, hsound, ?_⟩
    · rcases hok with hok | ⟨-, hok⟩
      · exact hok
      · cases hok
    · rw [hsound.find_eq, h.find_eq]
      exact lookup_insert hrep hes hname
  · exact .inl hsame

end Sound

section Dotdot

variable {bs : ℕ} {dir : Dir} {self parent new : ℕ}

lemma lookup_renumber {l m : List Entry} {e : Entry} (hes : ∀ x ∈ l ++ e :: m, x.inode ≠ 0)
    (hd : ((l ++ e :: m).map Entry.name).Nodup) (hn : new ≠ 0) :
    lookup (l ++ { e with inode := new } :: m) =
      update (lookup (l ++ e :: m)) e.name new := by
  have herase : Replaced (l ++ e :: m) (l ++ m) [e] [] := ⟨l, m, by simp, by simp⟩
  have hinsert : Replaced (l ++ m) (l ++ { e with inode := new } :: m) []
      (newEntry e.name new e.fileType) := ⟨l, m, by simp, by simp [newEntry, hn]⟩
  have hgone := lookup_erase herase rfl hd
  rw [lookup_insert hinsert ?_ ?_, hgone, update_idem]
  · intro x hx
    apply hes
    rcases List.mem_append.1 hx with hx | hx
    · exact List.mem_append_left _ hx
    · exact List.mem_append_right _ (List.mem_cons_of_mem _ hx)
  · rw [hgone, update_self]

lemma dotdotVisit_eq {b : Block} {r : Rec} (h : recAt b r.off = r) (prev : Option ℕ) :
    dotdotVisit new b r.off prev =
      if r.name = dotdot then some (setInode b r.off new, ()) else none := by
  conv_rhs => rw [← h]
  rfl

lemma setDotdot_spec (h : Sound bs dir) (hdots : Dots bs dir self parent) (hparent : parent ≠ 0)
    (hn : new ≠ 0) (hn' : new < 2 ^ 32) :
    Sound bs (setDotdot bs allReads dir new) ∧
      dirFind bs allReads (setDotdot bs allReads dir new) =
        update (dirFind bs allReads dir) dotdot new := by
  obtain ⟨b, rest, r₀, r₁, t, rfl, hb, h₀, -, h₁, rfl⟩ := hdots
  obtain ⟨hl, hat, hfit, ht⟩ := Tiled.split (l := [r₀]) hb
  have hat₀ : recAt b r₀.off = r₀ := hb.recAt List.mem_cons_self
  have hvisit : scan (dotdotVisit new) b none (r₀ :: r₁ :: t) =
      some (setInode b r₁.off new, ()) := by
    have hdot : ¬ r₀.name = dotdot := by
      rw [h₀]
      decide
    unfold scan
    rw [dotdotVisit_eq hat₀, if_neg hdot]
    unfold scan
    rw [dotdotVisit_eq hat, if_pos h₁]
  have hset : setDotdot bs allReads (some b :: rest) new =
      some (setInode b r₁.off new) :: rest := by
    rw [← Tiled.walk_block hb] at hvisit
    unfold setDotdot dirIterate
    simp only [allReads, if_true, hvisit]
  have hnew : Tiled bs (setInode b r₁.off new) 0 (r₀ :: { r₁ with inode := new } :: t) bs := by
    have hrec : recAt (setInode b r₁.off new) r₁.off = { r₁ with inode := new } := by
      rw [recAt_setInode hn', hat]
    have hone : Tiled bs b r₁.off [r₁] (r₁.off + r₁.recLen) := ⟨hat, hfit, rfl⟩
    have hone' : Tiled bs (setInode b r₁.off new) r₁.off [{ r₁ with inode := new }]
        (r₁.off + r₁.recLen) := ⟨hrec, ⟨hfit.1, hfit.2, hfit.3, hfit.4⟩, rfl⟩
    refine Tiled.replace hl hone' hone ht fun y hy => ?_
    have := hfit.header
    exact setInode_of_not_mem (by omega)
  have hsplit : ∀ r : Rec, r.inode ≠ 0 → live (r₀ :: r :: t) ++ entries bs rest =
      live [r₀] ++ ⟨r.name, r.inode, r.fileType⟩ :: (live t ++ entries bs rest) := by
    intro r hr
    have hone : live [r] = [⟨r.name, r.inode, r.fileType⟩] := by simp [live, Rec.entry, hr]
    rw [show r₀ :: r :: t = [r₀] ++ r :: t from rfl, live_split, hone]
    simp
  have hold : entries bs (some b :: rest) = _ :=
    (congrArg (· ++ entries bs rest) hb.blockEntries).trans (hsplit r₁ hparent)
  have hnew' : entries bs (some (setInode b r₁.off new) :: rest) = _ :=
    (congrArg (· ++ entries bs rest) hnew.blockEntries).trans (hsplit { r₁ with inode := new } hn)
  have hd := h.distinct
  unfold Distinct at hd
  rw [hold] at hd
  have hsound : Sound bs (some (setInode b r₁.off new) :: rest) := by
    have hfirst : WellFormed bs ([] ++ some b :: rest) := h.wellFormed
    refine ⟨hfirst.update hnew.blockTiled, ?_⟩
    unfold Distinct
    rw [hnew']
    simpa using hd
  rw [hset]
  refine ⟨hsound, ?_⟩
  rw [hsound.find_eq, h.find_eq, hnew', hold, ← h₁]
  apply lookup_renumber _ hd hn
  rw [← hold]
  exact fun e he => entries_inode he

end Dotdot

end MyOS.Fs.Ext2
