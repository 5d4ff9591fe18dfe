import MyOS.Fs.DirTree
import MyOS.Library.Counted

/-! The directories of a tmpfs or of an ext2 device with their link counts, one call at a time. -/

namespace MyOS.Fs

open Library Function

/-- `parent` is `parent` of tmpfs and the entry `..` of ext2, except that it is `none` at the root;
`entries` are the others. `used` are the inodes that are allocated. -/
structure Volume where
  ext2 : Bool
  root : ℕ
  used : ℕ → Bool
  isDir : ℕ → Bool
  entries : ℕ → List (String × ℕ)
  parent : ℕ → Option ℕ
  nlink : ℕ → ℕ

inductive VolumeAction
  | create (dir : ℕ) (name : String) (isDir : Bool) (n : ℕ)
  | unlink (dir : ℕ) (name : String) (x : ℕ)
  | rmdir (dir : ℕ) (name : String) (x : ℕ)
  | rename (m : Mv) (src : ℕ) (dst : Option ℕ)
  | reload (n : ℕ)
  | drop (n : ℕ)

namespace Volume

variable (v : Volume)

def find (dir : ℕ) (name : String) : Option ℕ :=
  ((v.entries dir).find? fun e => e.1 = name).map Prod.snd

def addEntry (dir : ℕ) (name : String) (n : ℕ) : Volume :=
  { v with entries := update v.entries dir (v.entries dir ++ [(name, n)]) }

def delEntry (dir : ℕ) (name : String) : Volume :=
  { v with entries := update v.entries dir ((v.entries dir).eraseP fun e => e.1 = name) }

def setLink (n k : ℕ) : Volume := { v with nlink := update v.nlink n k }

def incLink (n : ℕ) : Volume := v.setLink n ((v.nlink n + 1) % 2 ^ 32)
def decLink (n : ℕ) : Volume := v.setLink n ((v.nlink n + 2 ^ 32 - 1) % 2 ^ 32)

def setParent (n dir : ℕ) : Volume := { v with parent := update v.parent n (some dir) }

def newInode (dir : ℕ) (b : Bool) (n : ℕ) : Volume :=
  { v with
    used := update v.used n true
    isDir := update v.isDir n b
    entries := update v.entries n []
    parent := update v.parent n (if b then some dir else none)
    nlink := update v.nlink n (if b then 2 else 1) }

def create (dir : ℕ) (name : String) (b : Bool) (n : ℕ) : Volume :=
  let v := (v.newInode dir b n).addEntry dir name n
  if b then v.incLink dir else v

def unlink (dir : ℕ) (name : String) (x : ℕ) : Volume := (v.delEntry dir name).decLink x

def rmdir (dir : ℕ) (name : String) (x : ℕ) : Volume :=
  ((v.delEntry dir name).setLink x 0).decLink dir

def replace (dir : ℕ) (name : String) : Option ℕ → Volume
  | none => v
  | some x => if v.isDir x then v.rmdir dir name x else v.unlink dir name x

def move (m : Mv) (src : ℕ) : Volume :=
  let v := (v.delEntry m.odir m.oname).addEntry m.ndir m.nname src
  if v.isDir src ∧ m.odir ≠ m.ndir then
    ((v.setParent src m.ndir).decLink m.odir).incLink m.ndir
  else v

def rename (m : Mv) (src : ℕ) (dst : Option ℕ) : Volume := (v.replace m.ndir m.nname dst).move m src

def Same (m : Mv) (src : ℕ) : Prop :=
  if v.ext2 then v.find m.ndir m.nname = some src else m.odir = m.ndir ∧ m.oname = m.nname

def Walks (m : Mv) (src : ℕ) : Prop := v.isDir src = true ∧ (v.ext2 = true → m.odir ≠ m.ndir)

structure WithParent (dir : ℕ) (name : String) : Prop where
  used : v.used dir = true
  isDir : v.isDir dir = true
  name : name ≠ "." ∧ name ≠ ".."

inductive Step : Volume → VolumeAction → Volume → Prop
  -- `open` with `O_CREAT`, `mkdir` and `mknod`
  | create {v dir name b n} (hd : WithParent v dir name) (hf : v.find dir name = none)
      (hn : v.used n = false) : Step v (.create dir name b n) (v.create dir name b n)
  | unlink {v dir name x} (hd : WithParent v dir name) (hf : v.find dir name = some x)
      (hx : v.isDir x = false) : Step v (.unlink dir name x) (v.unlink dir name x)
  | rmdir {v dir name x} (hd : WithParent v dir name) (hf : v.find dir name = some x)
      (hx : v.isDir x = true) (he : v.entries x = []) :
      Step v (.rmdir dir name x) (v.rmdir dir name x)
  | rename {v src} {m : Mv} (ho : WithParent v m.odir m.oname) (hn : WithParent v m.ndir m.nname)
      (hf : v.find m.odir m.oname = some src) (hs : ¬ v.Same m src)
      (hw : v.Walks m src → Forest.Walked v.parent src m.ndir none)
      (hd : ∀ x, v.find m.ndir m.nname = some x →
        v.isDir x = v.isDir src ∧ (v.isDir x = true → v.entries x = [])) :
      Step v (.rename m src (v.find m.ndir m.nname)) (v.rename m src (v.find m.ndir m.nname))
  -- an inode of ext2 leaves memory and is read again, with a link count of 16 bits
  | reload {v n} (hv : v.ext2 = true) : Step v (.reload n) (v.setLink n (v.nlink n % 2 ^ 16))
  -- the last reference to an inode without links goes; the root is always in use
  | drop {v n} (hr : n ≠ v.root) (hn : v.nlink n = 0) :
      Step v (.drop n)
        { v with
          used := update v.used n false
          entries := update v.entries n [] }

end Volume

def newTmpfs : Volume where
  ext2 := false
  root := 0
  used n := n == 0
  isDir n := n == 0
  entries _ := []
  parent _ := none
  nlink n := if n = 0 then 2 else 0

end MyOS.Fs

/-! What the calls do to the names of a volume and to what can be reached from its root. -/

namespace MyOS.Fs

open Library Function

namespace Volume

def Named (v : Volume) (d : ℕ) (a : String) (n : ℕ) : Prop := (a, n) ∈ v.entries d

inductive Visible (v : Volume) (c : ℕ → Prop) : ℕ → Prop
  | root : Visible v c v.root
  | name {d a n} (h : Visible v c d) (hc : ¬ c d) (hn : v.Named d a n) : Visible v c n

structure WellFormed (v : Volume) : Prop where
  nodup : ∀ d, ((v.entries d).map Prod.fst).Nodup
  once : ∀ d a b n, v.Named d a n → v.Named d b n → v.isDir n = true → a = b
  parent : ∀ d a n, v.Named d a n → v.isDir n = true → v.parent n = some d
  top : v.parent v.root = none
  root : v.used v.root = true ∧ v.isDir v.root = true
  dir : ∀ d a n, v.Named d a n → v.used d = true ∧ v.isDir d = true
  used : ∀ d a n, v.Named d a n → v.used n = true

variable {v v' : Volume} {c : ℕ → Prop} {d e dir n x k src : ℕ} {a b name : String} {m : Mv}
  {dst : Option ℕ}

section Names

lemma named_delEntry (h : ((v.entries dir).map Prod.fst).Nodup) :
    (v.delEntry dir name).Named e a x ↔ v.Named e a x ∧ ¬ (e = dir ∧ a = name) := by
  by_cases he : e = dir
  · subst he
    simp only [Named, delEntry, update_self, true_and]
    generalize v.entries e = l at h
    induction l with
    | nil => simp
    | cons y l ih =>
      obtain ⟨hy, hl⟩ := List.nodup_cons.1 h
      by_cases hn : y.1 = name
      · rw [List.eraseP_cons_of_pos (by simpa using hn)]
        constructor
        · intro hm
          refine ⟨List.mem_cons_of_mem y hm, ?_⟩
          rintro rfl
          exact hy (hn ▸ List.mem_map_of_mem hm)
        · rintro ⟨hm, hne⟩
          rcases List.mem_cons.1 hm with rfl | hm
          · exact absurd hn hne
          · exact hm
      · rw [List.eraseP_cons_of_neg (by simpa using hn), List.mem_cons, List.mem_cons, ih hl]
        constructor
        · rintro (rfl | ⟨hm, hne⟩)
          · exact ⟨.inl rfl, hn⟩
          · exact ⟨.inr hm, hne⟩
        · rintro ⟨rfl | hm, hne⟩
          · exact .inl rfl
          · exact .inr ⟨hm, hne⟩
  · simp [Named, delEntry, he]

lemma named_addEntry : (v.addEntry dir name n).Named e a x ↔
    v.Named e a x ∨ e = dir ∧ a = name ∧ x = n := by
  by_cases he : e = dir
  · subst he
    simp [Named, addEntry]
  · simp [Named, addEntry, he]

lemma nodup_delEntry (h : ∀ d, ((v.entries d).map Prod.fst).Nodup) :
    (((v.delEntry dir name).entries d).map Prod.fst).Nodup := by
  by_cases hd : d = dir
  · subst hd
    simp only [delEntry, update_self]
    exact (h d).sublist ((List.eraseP_sublist).map Prod.fst)
  · simpa [delEntry, hd] using h d

lemma nodup_addEntry (h : ∀ d, ((v.entries d).map Prod.fst).Nodup)
    (hn : ∀ x, ¬ v.Named dir name x) :
    (((v.addEntry dir name n).entries d).map Prod.fst).Nodup := by
  by_cases hd : d = dir
  · subst hd
    simp only [addEntry, update_self, List.map_append, List.map_cons, List.map_nil]
    refine List.Nodup.append (h d) (List.nodup_singleton name) ?_
    intro b hb hb'
    obtain rfl := List.mem_singleton.1 hb'
    obtain ⟨y, hy, rfl⟩ := List.mem_map.1 hb
    exact hn y.2 hy
  · simpa [addEntry, hd] using h d

lemma find_named (h : v.find dir name = some n) : v.Named dir name n := by
  obtain ⟨y, hy, rfl⟩ := Option.map_eq_some_iff.1 h
  have hn : y.1 = name := by simpa using List.find?_some hy
  rw [← hn]
  exact List.mem_of_find?_eq_some hy

lemma not_named_of_find (h : v.find dir name = none) (x : ℕ) : ¬ v.Named dir name x := by
  intro hx
  have hn := List.find?_eq_none.1 (Option.map_eq_none_iff.1 h) _ hx
  simp at hn

lemma named_unique (h : ((v.entries dir).map Prod.fst).Nodup) (hn : v.Named dir name n)
    (hx : v.Named dir name x) : x = n := by
  by_contra hne
  exact List.inj_on_of_nodup_map h hn hx rfl |> fun he => hne (Prod.mk.inj he).2.symm

lemma find_of_named (h : ((v.entries dir).map Prod.fst).Nodup) (hn : v.Named dir name n) :
    v.find dir name = some n := by
  cases hf : v.find dir name with
  | none => exact absurd hn (not_named_of_find hf n)
  | some x => rw [named_unique h hn (find_named hf)]

lemma not_named_unused (h : v.WellFormed) (hn : v.used n = false) : ¬ v.Named n a x := by
  intro hx
  rw [(h.dir n a x hx).1] at hn
  cases hn

lemma ne_of_used (h : v.used d = true) (hn : v.used n = false) : d ≠ n := by
  rintro rfl
  rw [h] at hn
  cases hn

lemma named_newInode (h : v.WellFormed) (hn : v.used n = false) {b : Bool} :
    (v.newInode dir b n).Named e a x ↔ v.Named e a x := by
  by_cases he : e = n
  · subst he
    constructor
    · simp [Named, newInode]
    · intro hx
      exact absurd hx (not_named_unused h hn)
  · simp [Named, newInode, he]

lemma named_create (h : v.WellFormed) (hn : v.used n = false) {b : Bool} :
    (v.create dir name b n).Named e a x ↔ v.Named e a x ∨ e = dir ∧ a = name ∧ x = n := by
  have hadd : (v.create dir name b n).Named e a x ↔
      ((v.newInode dir b n).addEntry dir name n).Named e a x := by
    cases b <;> rfl
  rw [hadd, named_addEntry, named_newInode h hn]

lemma named_unlink (h : v.WellFormed) : (v.unlink dir name k).Named e a x ↔
    v.Named e a x ∧ ¬ (e = dir ∧ a = name) := named_delEntry (h.nodup dir)

lemma named_rmdir (h : v.WellFormed) : (v.rmdir dir name k).Named e a x ↔
    v.Named e a x ∧ ¬ (e = dir ∧ a = name) := named_delEntry (h.nodup dir)

lemma named_replace (h : v.WellFormed) :
    (v.replace dir name (v.find dir name)).Named e a x ↔
      v.Named e a x ∧ ¬ (e = dir ∧ a = name) := by
  cases hf : v.find dir name with
  | none =>
    refine ⟨fun hx => ⟨hx, ?_⟩, And.left⟩
    rintro ⟨rfl, rfl⟩
    exact not_named_of_find hf x hx
  | some y =>
    simp only [replace]
    split_ifs
    · exact named_rmdir h
    · exact named_unlink h

lemma nodup_replace (h : ∀ d, ((v.entries d).map Prod.fst).Nodup) :
    (((v.replace dir name dst).entries d).map Prod.fst).Nodup := by
  cases dst with
  | none => exact h d
  | some x =>
    simp only [replace]
    split_ifs
    · exact nodup_delEntry h
    · exact nodup_delEntry h

lemma move_entries : (v.move m src).entries =
    ((v.delEntry m.odir m.oname).addEntry m.ndir m.nname src).entries := by
  simp only [move]
  split_ifs <;> rfl

lemma named_rename (h : v.WellFormed) :
    (v.rename m src (v.find m.ndir m.nname)).Named e a x ↔
      (v.Named e a x ∧ ¬ (e = m.ndir ∧ a = m.nname)) ∧ ¬ (e = m.odir ∧ a = m.oname) ∨
        e = m.ndir ∧ a = m.nname ∧ x = src := by
  rw [Named, rename, move_entries, ← Named, named_addEntry,
    named_delEntry (nodup_replace h.nodup), named_replace h]

end Names

section Rename

lemma replace_fields : (v.replace dir name dst).root = v.root ∧
    (v.replace dir name dst).ext2 = v.ext2 ∧ (v.replace dir name dst).used = v.used ∧
    (v.replace dir name dst).isDir = v.isDir ∧ (v.replace dir name dst).parent = v.parent := by
  cases dst with
  | none => simp [replace]
  | some x =>
    simp only [replace]
    split_ifs <;> exact ⟨rfl, rfl, rfl, rfl, rfl⟩

lemma move_fields : (v.move m src).root = v.root ∧ (v.move m src).ext2 = v.ext2 ∧
    (v.move m src).used = v.used ∧ (v.move m src).isDir = v.isDir := by
  simp only [move]
  split_ifs <;> exact ⟨rfl, rfl, rfl, rfl⟩

lemma rename_root (m : Mv) (src : ℕ) (dst : Option ℕ) : (v.rename m src dst).root = v.root :=
  move_fields.1.trans replace_fields.1

lemma rename_ext2 : (v.rename m src dst).ext2 = v.ext2 :=
  move_fields.2.1.trans replace_fields.2.1

lemma rename_used : (v.rename m src dst).used = v.used :=
  move_fields.2.2.1.trans replace_fields.2.2.1

lemma rename_isDir : (v.rename m src dst).isDir = v.isDir :=
  move_fields.2.2.2.trans replace_fields.2.2.2.1

lemma move_parent : (v.move m src).parent =
    if v.isDir src = true ∧ m.odir ≠ m.ndir then
      update v.parent src (some m.ndir)
    else v.parent := by
  simp only [move]
  split_ifs with h₁ h₂ h₂
  · rfl
  · exact absurd h₁ h₂
  · exact absurd h₂ h₁
  · rfl

lemma rename_parent_other (hx : x ≠ src) : (v.rename m src dst).parent x = v.parent x := by
  rw [rename, move_parent]
  split_ifs
  · rw [update_of_ne hx, replace_fields.2.2.2.2]
  · rw [replace_fields.2.2.2.2]

lemma rename_parent_src (h : v.WellFormed) (hs : v.Named m.odir m.oname src)
    (hd : v.isDir src = true) : (v.rename m src dst).parent src = some m.ndir := by
  rw [rename, move_parent, replace_fields.2.2.2.1, replace_fields.2.2.2.2]
  split_ifs with hne
  · exact update_self ..
  · rw [h.parent _ _ _ hs hd]
    by_contra hc
    exact hne ⟨hd, fun he => hc (by rw [he])⟩

end Rename

section WellFormed

lemma WellFormed.sub (h : v.WellFormed) (hnodup : ∀ d, ((v'.entries d).map Prod.fst).Nodup)
    (hsub : ∀ d a n, v'.Named d a n → v.Named d a n) (hparent : v'.parent = v.parent)
    (hdir : v'.isDir = v.isDir) (hroot : v'.root = v.root)
    (hused : ∀ n, v.used n = true → v'.used n = false → n ≠ v.root ∧
      (∀ a x, ¬ v'.Named n a x) ∧ ∀ d a, ¬ v'.Named d a n) : v'.WellFormed := by
  have hkeep : ∀ n, v.used n = true → (n = v.root ∨ (∃ a x, v'.Named n a x) ∨
      ∃ d a, v'.Named d a n) → v'.used n = true := by
    intro n hn hc
    cases hf : v'.used n with
    | true => rfl
    | false =>
      obtain ⟨h₁, h₂, h₃⟩ := hused n hn hf
      rcases hc with hc | ⟨a, x, hc⟩ | ⟨d, a, hc⟩
      · exact absurd hc h₁
      · exact absurd hc (h₂ a x)
      · exact absurd hc (h₃ d a)
  refine ⟨hnodup, ?_, ?_, ?_, ?_, ?_, ?_⟩
  · intro d a b n ha hb hn
    rw [hdir] at hn
    exact h.once d a b n (hsub d a n ha) (hsub d b n hb) hn
  · intro d a n ha hn
    rw [hdir] at hn
    rw [hparent]
    exact h.parent d a n (hsub d a n ha) hn
  · rw [hparent, hroot]
    exact h.top
  · rw [hroot, hdir]
    exact ⟨hkeep _ h.root.1 (.inl rfl), h.root.2⟩
  · intro d a n ha
    obtain ⟨h₁, h₂⟩ := h.dir d a n (hsub d a n ha)
    rw [hdir]
    exact ⟨hkeep d h₁ (.inr (.inl ⟨a, n, ha⟩)), h₂⟩
  · intro d a n ha
    exact hkeep n (h.used d a n (hsub d a n ha)) (.inr (.inr ⟨d, a, ha⟩))

lemma WellFormed.create (h : v.WellFormed) (hd : v.WithParent dir name)
    (hf : v.find dir name = none) (hn : v.used n = false) {b : Bool} :
    (v.create dir name b n).WellFormed := by
  have hne : dir ≠ n := ne_of_used hd.used hn
  have hfields : (v.create dir name b n).parent = (v.newInode dir b n).parent ∧
      (v.create dir name b n).isDir = update v.isDir n b ∧
      (v.create dir name b n).used = update v.used n true ∧
      (v.create dir name b n).root = v.root ∧ (v.create dir name b n).entries =
        ((v.newInode dir b n).addEntry dir name n).entries := by
    cases b <;> exact ⟨rfl, rfl, rfl, rfl, rfl⟩
  obtain ⟨hparent, hdir, hused, hroot, hentries⟩ := hfields
  have hold : ∀ e a x, v.Named e a x → e ≠ n ∧ x ≠ n := by
    intro e a x hx
    exact ⟨ne_of_used (h.dir e a x hx).1 hn, ne_of_used (h.used e a x hx) hn⟩
  have hnew : ∀ e a, (v.create dir name b n).Named e a n → e = dir ∧ a = name := by
    intro e a ha
    rcases (named_create h hn).1 ha with ha | ⟨h₁, h₂, -⟩
    · exact absurd rfl (hold e a n ha).2
    · exact ⟨h₁, h₂⟩
  have hother : ∀ e a x, x ≠ n → (v.create dir name b n).Named e a x → v.Named e a x := by
    intro e a x hx ha
    rcases (named_create h hn).1 ha with ha | ⟨-, -, h₃⟩
    · exact ha
    · exact absurd h₃ hx
  refine ⟨?_, ?_, ?_, ?_, ?_, ?_, ?_⟩
  · intro d
    rw [hentries]
    apply nodup_addEntry
    · intro e
      by_cases he : e = n
      · subst he
        simp [newInode]
      · simpa [newInode, he] using h.nodup e
    · intro x hx
      exact not_named_of_find hf x ((named_newInode h hn).1 hx)
  · intro e a b' x ha hb hx
    by_cases hxn : x = n
    · subst hxn
      rw [(hnew e a ha).2, (hnew e b' hb).2]
    · rw [hdir, update_of_ne hxn] at hx
      exact h.once e a b' x (hother e a x hxn ha) (hother e b' x hxn hb) hx
  · intro e a x ha hx
    rw [hparent]
    by_cases hxn : x = n
    · subst hxn
      rw [hdir, update_self] at hx
      rw [(hnew e a ha).1]
      simp [newInode, hx]
    · rw [hdir, update_of_ne hxn] at hx
      simp only [newInode, update_of_ne hxn]
      exact h.parent e a x (hother e a x hxn ha) hx
  · rw [hparent, hroot]
    simp only [newInode, update_of_ne (ne_of_used h.root.1 hn)]
    exact h.top
  · rw [hused, hdir, hroot, update_of_ne (ne_of_used h.root.1 hn),
      update_of_ne (ne_of_used h.root.1 hn)]
    exact h.root
  · intro e a x ha
    rw [hused, hdir]
    rcases (named_create h hn).1 ha with ha | ⟨rfl, -, -⟩
    · have hen := (hold e a x ha).1
      rw [update_of_ne hen, update_of_ne hen]
      exact h.dir e a x ha
    · rw [update_of_ne hne, update_of_ne hne]
      exact ⟨hd.used, hd.isDir⟩
  · intro e a x ha
    rw [hused]
    rcases (named_create h hn).1 ha with ha | ⟨-, -, rfl⟩
    · rw [update_of_ne (hold e a x ha).2]
      exact h.used e a x ha
    · exact update_self ..

lemma WellFormed.rename (h : v.WellFormed) (hd : v.WithParent m.ndir m.nname)
    (hs : v.Named m.odir m.oname src) :
    (v.rename m src (v.find m.ndir m.nname)).WellFormed := by
  have hsrc : ∀ e a, v.isDir src = true →
      (v.rename m src (v.find m.ndir m.nname)).Named e a src → e = m.ndir ∧ a = m.nname := by
    intro e a hdir ha
    rcases (named_rename h).1 ha with ⟨⟨ha, -⟩, hold⟩ | ⟨h₁, h₂, -⟩
    · have hp := h.parent e a src ha hdir
      rw [h.parent _ _ _ hs hdir] at hp
      cases hp
      exact absurd ⟨rfl, h.once _ _ _ _ ha hs hdir⟩ hold
    · exact ⟨h₁, h₂⟩
  have hother : ∀ e a x, x ≠ src → (v.rename m src (v.find m.ndir m.nname)).Named e a x →
      v.Named e a x := by
    intro e a x hx ha
    rcases (named_rename h).1 ha with ⟨⟨ha, -⟩, -⟩ | ⟨-, -, h₃⟩
    · exact ha
    · exact absurd h₃ hx
  refine ⟨?_, ?_, ?_, ?_, ?_, ?_, ?_⟩
  · intro d
    rw [Volume.rename, move_entries]
    apply nodup_addEntry
    · exact fun _ => nodup_delEntry fun _ => nodup_replace h.nodup
    · intro x hx
      have hx := ((named_delEntry (nodup_replace h.nodup)).1 hx).1
      exact ((named_replace h).1 hx).2 ⟨rfl, rfl⟩
  · intro e a b x ha hb hx
    rw [rename_isDir] at hx
    by_cases hxs : x = src
    · subst hxs
      rw [(hsrc e a hx ha).2, (hsrc e b hx hb).2]
    · exact h.once e a b x (hother e a x hxs ha) (hother e b x hxs hb) hx
  · intro e a x ha hx
    rw [rename_isDir] at hx
    by_cases hxs : x = src
    · subst hxs
      rw [(hsrc e a hx ha).1]
      exact rename_parent_src h hs hx
    · rw [rename_parent_other hxs]
      exact h.parent e a x (hother e a x hxs ha) hx
  · have hne : v.root ≠ src := by
      rintro rfl
      have htop := h.parent _ _ _ hs h.root.2
      rw [h.top] at htop
      cases htop
    rw [rename_root, rename_parent_other hne]
    exact h.top
  · rw [rename_root, rename_used, rename_isDir]
    exact h.root
  · intro e a x ha
    rw [rename_used, rename_isDir]
    rcases (named_rename h).1 ha with ⟨⟨ha, -⟩, -⟩ | ⟨rfl, -, -⟩
    · exact h.dir e a x ha
    · exact ⟨hd.used, hd.isDir⟩
  · intro e a x ha
    rw [rename_used]
    rcases (named_rename h).1 ha with ⟨⟨ha, -⟩, -⟩ | ⟨-, -, rfl⟩
    · exact h.used e a x ha
    · exact h.used _ _ _ hs

lemma WellFormed.step {a : VolumeAction} (h : v.WellFormed) (hs : Step v a v')
    (hd : ∀ n, a = .drop n → ∀ d a, ¬ v.Named d a n) : v'.WellFormed := by
  cases hs with
  | create hp hf hn => exact h.create hp hf hn
  | unlink hp _ _ =>
    refine h.sub (fun _ => nodup_delEntry h.nodup) ?_ rfl rfl rfl ?_
    · exact fun d a n ha => ((named_unlink h).1 ha).1
    · intro n hn hf
      rw [show (v.unlink _ _ _).used n = v.used n from rfl, hn] at hf
      cases hf
  | rmdir hp _ _ _ =>
    refine h.sub (fun _ => nodup_delEntry h.nodup) ?_ rfl rfl rfl ?_
    · exact fun d a n ha => ((named_rmdir h).1 ha).1
    · intro n hn hf
      rw [show (v.rmdir _ _ _).used n = v.used n from rfl, hn] at hf
      cases hf
  | rename _ hn hf _ _ _ => exact h.rename hn (find_named hf)
  | reload _ => exact ⟨h.nodup, h.once, h.parent, h.top, h.root, h.dir, h.used⟩
  | @drop n hr _ =>
    have hsub : ∀ d a x, Volume.Named { v with
        used := update v.used n false
        entries := update v.entries n [] } d a x → v.Named d a x ∧ d ≠ n := by
      intro d a x hx
      by_cases hdn : d = n
      · simp [Named, hdn] at hx
      · exact ⟨by simpa [Named, hdn] using hx, hdn⟩
    refine h.sub ?_ (fun d a x hx => (hsub d a x hx).1) rfl rfl rfl ?_
    · intro d
      by_cases hdn : d = n
      · simp [hdn]
      · simpa [hdn] using h.nodup d
    · intro k hk hf
      have hkn : k = n := by
        by_contra hkn
        simp only [update_of_ne hkn, hk] at hf
        cases hf
      subst hkn
      refine ⟨hr, fun a x hx => (hsub k a x hx).2 rfl, fun d a hx => ?_⟩
      exact hd k rfl d a (hsub d a k hx).1

lemma newTmpfs_wellFormed : newTmpfs.WellFormed := by
  refine ⟨?_, ?_, ?_, rfl, ⟨rfl, rfl⟩, ?_, ?_⟩
  · exact fun _ => List.nodup_nil
  · intro d a b n ha
    cases ha
  · intro d a n ha
    cases ha
  · intro d a n ha
    cases ha
  · intro d a n ha
    cases ha

end WellFormed

section Visible

open Forest Relation

lemma Visible.mono (h : v.Visible c n) (hr : v'.root = v.root)
    (hn : ∀ d a n, v.Named d a n → v'.Named d a n) : v'.Visible c n := by
  induction h with
  | root =>
    rw [← hr]
    exact .root
  | name _ hc ha ih => exact ih.name hc (hn _ _ _ ha)

lemma Visible.weaken {c' : ℕ → Prop} (h : v.Visible c n) (hc : ∀ d, c' d → c d) :
    v.Visible c' n := by
  induction h with
  | root => exact .root
  | name _ hd ha ih => exact ih.name (fun hd' => hd (hc _ hd')) ha

lemma Visible.named (h : v.Visible c n) : n = v.root ∨ ∃ d a, v.Named d a n := by
  cases h with
  | root => exact .inl rfl
  | name _ _ ha => exact .inr ⟨_, _, ha⟩

lemma Visible.used (h : v.Visible c n) (hv : v.WellFormed) : v.used n = true := by
  rcases h.named with rfl | ⟨d, a, ha⟩
  · exact hv.root.1
  · exact hv.used d a n ha

lemma Visible.reaches (h : v.Visible c n) (hv : v.WellFormed) (hd : v.isDir n = true) :
    Reaches v.parent n v.root := by
  induction h with
  | root => exact .refl
  | name _ _ ha ih => exact ReflTransGen.head (hv.parent _ _ _ ha hd) (ih (hv.dir _ _ _ ha).2)

lemma Visible.no_cycle (h : v.Visible c n) (hv : v.WellFormed) (hd : v.isDir n = true) :
    ¬ TransGen (Up v.parent) n n := Reaches.no_cycle (h.reaches hv hd) hv.top

lemma Visible.remove (h : v.Visible c n) (v' : Volume) (dir : ℕ) (name : String) (x : ℕ)
    (hr : v'.root = v.root)
    (hn : ∀ d a n, v'.Named d a n ↔ v.Named d a n ∧ ¬ (d = dir ∧ a = name))
    (hx : ∀ n, v.Named dir name n → n = x) (he : ∀ a n, ¬ v.Named x a n) (hne : n ≠ x) :
    v'.Visible c n := by
  induction h with
  | root =>
    rw [← hr]
    exact .root
  | @name d a n _ hc ha ih =>
    have hd : d ≠ x := by
      rintro rfl
      exact he a n ha
    refine (ih hd).name hc ((hn d a n).2 ⟨ha, ?_⟩)
    rintro ⟨rfl, rfl⟩
    exact hne (hx n ha)

lemma Visible.cover (h : v.Visible c n) (hv : v.WellFormed) (hd : v.isDir n = true)
    (hx : ¬ Reaches v.parent n x) : v.Visible (fun d => c d ∨ d = x) n := by
  induction h with
  | root => exact .root
  | @name d a n _ hc ha ih =>
    have hup : Reaches v.parent d x → Reaches v.parent n x :=
      fun hr => ReflTransGen.head (hv.parent d a n ha hd) hr
    refine (ih (hv.dir d a n ha).2 fun hr => hx (hup hr)).name ?_ ha
    rintro (h' | rfl)
    · exact hc h'
    · exact hx (hup .refl)

structure Replaceable (v : Volume) (m : Mv) : Prop where
  empty : ∀ x, v.find m.ndir m.nname = some x → ∀ a n, ¬ v.Named x a n

lemma Replaceable.of_rename (hv : v.WellFormed)
    (hd : ∀ x, v.find m.ndir m.nname = some x →
      v.isDir x = v.isDir src ∧ (v.isDir x = true → v.entries x = [])) : v.Replaceable m := by
  constructor
  intro x hx a n hn
  have he := (hd x hx).2 (hv.dir x a n hn).2
  rw [Named, he] at hn
  cases hn

lemma Visible.rename_outside (h : v.Visible c n) (hv : v.WellFormed) (hr : v.Replaceable m)
    (hs : v.Named m.odir m.oname src) (hd : v.isDir n = true)
    (hsrc : v.isDir src = true → ¬ Reaches v.parent n src)
    (hx : v.find m.ndir m.nname ≠ some n) :
    (v.rename m src (v.find m.ndir m.nname)).Visible c n := by
  induction h with
  | root =>
    rw [← rename_root m src (v.find m.ndir m.nname)]
    exact .root
  | @name d a n _ hc ha ih =>
    have hdir := (hv.dir d a n ha).2
    have hd' : v.find m.ndir m.nname ≠ some d := fun hf => hr.empty d hf a n ha
    have hd'' : v.isDir src = true → ¬ Reaches v.parent d src :=
      fun hsd hreach => hsrc hsd (ReflTransGen.head (hv.parent d a n ha hd) hreach)
    refine (ih hdir hd'' hd').name hc ((named_rename hv).2 (.inl ⟨⟨ha, ?_⟩, ?_⟩))
    · rintro ⟨rfl, rfl⟩
      exact hx (find_of_named (hv.nodup _) ha)
    · rintro ⟨rfl, rfl⟩
      obtain rfl := named_unique (hv.nodup _) hs ha
      exact hsrc hd .refl

lemma Visible.rename (h : v.Visible c n) (hv : v.WellFormed) (hr : v.Replaceable m)
    (hs : v.Named m.odir m.oname src) (hd : v.isDir n = true) (hn : v.Visible c m.ndir)
    (hc : ¬ c m.ndir) (hdir : v.isDir m.ndir = true)
    (hsrc : v.isDir src = true → ¬ Reaches v.parent m.ndir src)
    (hx : v.find m.ndir m.nname ≠ some n) :
    (v.rename m src (v.find m.ndir m.nname)).Visible c n := by
  have hplace : (v.rename m src (v.find m.ndir m.nname)).Visible c m.ndir := by
    apply hn.rename_outside hv hr hs hdir hsrc
    intro hf
    have hup := hv.parent _ _ _ (find_named hf) hdir
    exact hn.no_cycle hv hdir (TransGen.single hup)
  induction h with
  | root =>
    rw [← rename_root m src (v.find m.ndir m.nname)]
    exact .root
  | @name d a n _ hcd ha ih =>
    have hd' : v.find m.ndir m.nname ≠ some d := fun hf => hr.empty d hf a n ha
    by_cases hold : d = m.odir ∧ a = m.oname
    · obtain ⟨rfl, rfl⟩ := hold
      obtain rfl := named_unique (hv.nodup _) hs ha
      exact hplace.name hc ((named_rename hv).2 (.inr ⟨rfl, rfl, rfl⟩))
    · refine (ih (hv.dir d a n ha).2 hd').name hcd
        ((named_rename hv).2 (.inl ⟨⟨ha, ?_⟩, hold⟩))
      rintro ⟨rfl, rfl⟩
      exact hx (find_of_named (hv.nodup _) ha)

lemma not_inside (hv : v.WellFormed) (hs : v.Named m.odir m.oname src)
    (hw : v.Walks m src → Walked v.parent src m.ndir none) (hn : v.Visible c m.ndir)
    (hdir : v.isDir m.ndir = true) (hd : v.isDir src = true) :
    ¬ Reaches v.parent m.ndir src := by
  by_cases hwalk : v.Walks m src
  · exact (hw hwalk).not_reaches
  · intro hr
    have hsame : m.odir = m.ndir := by
      by_contra hne
      exact hwalk ⟨hd, fun _ => hne⟩
    have hup := hv.parent _ _ _ hs hd
    rw [hsame] at hup
    exact hn.no_cycle hv hdir (TransGen.tail' hr hup)

end Visible

end Volume

end MyOS.Fs
