import MyOS.Fs.Ext2.Entries
import MyOS.Library.System

/-! A directory under any sequence of `dir_add` and `dir_remove` is a finite map. -/

namespace MyOS.Fs.Ext2

open Library Function

def allReads : ℕ → Bool := fun _ => true

inductive DirAction
  | add (name : Name) (ino : ℕ) (ft : UInt8) (block : Except DirError Block)
  | remove (name : Name)

/-- `last` is not in the source: the inode that was last added under a name and not removed since. -/
structure DirState where
  dir : Dir
  last : Name → ℕ

namespace DirState

def find (bs : ℕ) (s : DirState) (name : Name) : ℕ := dirFind bs allReads s.dir name

def add (bs : ℕ) (s : DirState) (name : Name) (ino : ℕ) (ft : UInt8)
    (block : Except DirError Block) : DirState :=
  let r := dirAdd bs allReads s.dir name ino ft { block := block }
  { dir := r.2, last := if r.1 = none then update s.last name ino else s.last }

def remove (bs : ℕ) (s : DirState) (name : Name) : DirState :=
  let r := dirRemove bs allReads s.dir name true
  { dir := r.2, last := if r.1 = none then update s.last name 0 else s.last }

def start (bs : ℕ) (dir : Dir) : DirState := { dir := dir, last := dirFind bs allReads dir }

end DirState

/-- The runs from a directory: names of 1 to 255 bytes are added that are not present, with any
inode number, and names are removed. -/
def directory (bs : ℕ) (dir : Dir) : System DirState DirAction where
  init s := s = .start bs dir
  step s
    | .add name ino ft block, t => name ≠ [] ∧ name.length ≤ nameMax ∧ ino < 2 ^ 32 ∧
        s.find bs name = 0 ∧ t = s.add bs name ino ft block
    | .remove name, t => t = s.remove bs name

def Distinct (bs : ℕ) (dir : Dir) : Prop := ((entries bs dir).map Entry.name).Nodup

def OneEntry (bs : ℕ) (s t : DirState) : DirAction → Prop
  | .add name ino ft _ => t.dir = s.dir ∨
      Replaced (entries bs s.dir) (entries bs t.dir) [] (newEntry name ino ft)
  | .remove name => t.dir = s.dir ∨
      ∃ e, e.name = name ∧ Replaced (entries bs s.dir) (entries bs t.dir) [e] []

structure ActsAsMap (bs : ℕ) (M : System DirState DirAction) (s : DirState) : Prop where
  wellFormed : WellFormed bs s.dir
  find : ∀ name, s.find bs name = s.last name
  frame : ∀ a t, M.step s a t → OneEntry bs s t a

variable {bs : ℕ} {dir : Dir} {name : Name} {es es' : List Entry}

lemma inode_ne_zero {rs : List Rec} {e : Entry} (h : e ∈ live rs) : e.inode ≠ 0 := by
  obtain ⟨r, -, hr⟩ := List.mem_filterMap.1 h
  unfold Rec.entry at hr
  split_ifs at hr with hi
  cases hr
  exact hi

lemma entries_inode {e : Entry} (h : e ∈ entries bs dir) : e.inode ≠ 0 := by
  obtain ⟨o, -, ho⟩ := List.mem_flatMap.1 h
  cases o with
  | none => simp [blockEntries] at ho
  | some b => exact inode_ne_zero ho

lemma lookup_of_not_mem (h : ∀ e ∈ es, e.name ≠ name) : lookup es name = 0 := by
  have hn : (es.find? fun e => e.name = name) = none := List.find?_eq_none.2 (by simpa using h)
  simp [lookup, hn]

lemma lookup_eq_zero (hes : ∀ e ∈ es, e.inode ≠ 0) :
    lookup es name = 0 ↔ ∀ e ∈ es, e.name ≠ name := by
  constructor
  · intro h e he hname
    unfold lookup at h
    cases hf : es.find? fun e => e.name = name with
    | none => exact List.find?_eq_none.1 hf e he (by simpa using hname)
    | some x =>
      rw [hf] at h
      exact hes x (List.mem_of_find?_eq_some hf) h
  · exact lookup_of_not_mem

lemma lookup_append {l m : List Entry} (h : ∀ e ∈ l, e.name ≠ name) :
    lookup (l ++ m) name = lookup m name := by
  have hl : (l.find? fun e => e.name = name) = none := List.find?_eq_none.2 (by simpa using h)
  simp [lookup, List.find?_append, hl]

lemma lookup_drop {l m : List Entry} {e : Entry} (h : e.name ≠ name) :
    lookup (l ++ e :: m) name = lookup (l ++ m) name := by
  simp [lookup, List.find?_append, h]

lemma lookup_insert {ino : ℕ} {ft : UInt8} (h : Replaced es es' [] (newEntry name ino ft))
    (hes : ∀ e ∈ es, e.inode ≠ 0) (hnew : lookup es name = 0) :
    lookup es' = update (lookup es) name ino := by
  obtain ⟨l, m, rfl, rfl⟩ := h
  have hno := (lookup_eq_zero hes).1 hnew
  rw [List.append_nil] at hno hnew ⊢
  funext x
  by_cases hi : ino = 0
  · subst hi
    by_cases hx : x = name
    · subst hx
      simpa [newEntry] using hnew
    · simp [newEntry, hx]
  · have hl : newEntry name ino ft = [⟨name, ino, ft⟩] := by simp [newEntry, hi]
    rw [hl, List.append_assoc, List.singleton_append]
    by_cases hx : x = name
    · subst hx
      rw [lookup_append fun e he => hno e (List.mem_append_left m he), update_self]
      simp [lookup]
    · rw [lookup_drop (by simpa using Ne.symm hx), update_of_ne hx]

lemma lookup_erase {e : Entry} (h : Replaced es es' [e] []) (he : e.name = name)
    (hd : (es.map Entry.name).Nodup) : lookup es' = update (lookup es) name 0 := by
  obtain ⟨l, m, rfl, rfl⟩ := h
  funext x
  simp only [List.append_nil, List.append_assoc, List.singleton_append, List.map_append,
    List.map_cons] at hd ⊢
  by_cases hx : x = name
  · subst hx
    rw [update_self]
    apply lookup_of_not_mem
    intro y hy hyx
    rw [List.nodup_middle, List.nodup_cons, ← List.map_append] at hd
    exact hd.1 (List.mem_map.2 ⟨y, hy, hyx.trans he.symm⟩)
  · have hex : e.name ≠ x := by
      rw [he]
      exact Ne.symm hx
    rw [update_of_ne hx, lookup_drop hex]

lemma distinct_insert {ino : ℕ} {ft : UInt8} (h : Replaced es es' [] (newEntry name ino ft))
    (hno : ∀ e ∈ es, e.name ≠ name) (hd : (es.map Entry.name).Nodup) :
    (es'.map Entry.name).Nodup := by
  obtain ⟨l, m, rfl, rfl⟩ := h
  rw [List.append_nil] at hno hd
  by_cases hi : ino = 0
  · simpa [newEntry, hi] using hd
  · have hl : newEntry name ino ft = [⟨name, ino, ft⟩] := by simp [newEntry, hi]
    rw [hl, List.append_assoc, List.singleton_append, List.map_append, List.map_cons,
      List.nodup_middle, List.nodup_cons, ← List.map_append]
    refine ⟨?_, hd⟩
    intro hmem
    obtain ⟨e, he, hname⟩ := List.mem_map.1 hmem
    exact hno e he hname

lemma distinct_erase {e : Entry} (h : Replaced es es' [e] []) (hd : (es.map Entry.name).Nodup) :
    (es'.map Entry.name).Nodup := by
  obtain ⟨l, m, rfl, rfl⟩ := h
  rw [List.append_nil, List.map_append]
  rw [List.append_assoc, List.singleton_append, List.map_append, List.map_cons,
    List.nodup_middle] at hd
  exact hd.of_cons

structure DirInvariant (bs : ℕ) (s : DirState) : Prop where
  wellFormed : WellFormed bs s.dir
  distinct : Distinct bs s.dir
  last : s.last = lookup (entries bs s.dir)

namespace DirInvariant

variable {s t : DirState} {a : DirAction}

lemma find (h : DirInvariant bs s) (name : Name) : s.find bs name = s.last name := by
  rw [h.last]
  exact dirFind_eq h.wellFormed fun _ _ => rfl

lemma start (hw : WellFormed bs dir) (hd : Distinct bs dir) :
    DirInvariant bs (.start bs dir) := by
  refine ⟨hw, hd, ?_⟩
  funext name
  exact dirFind_eq hw fun _ _ => rfl

lemma step_add (hs : BlockSize bs) (h : DirInvariant bs s) {ino : ℕ} {ft : UInt8}
    {block : Except DirError Block} (hi : ino < 2 ^ 32) (hnew : s.find bs name = 0) :
    DirInvariant bs (s.add bs name ino ft block) ∧
      OneEntry bs s (s.add bs name ino ft block) (.add name ino ft block) := by
  rw [h.find, h.last] at hnew
  have hes : ∀ e ∈ entries bs s.dir, e.inode ≠ 0 := fun e he => entries_inode he
  obtain ⟨hw, hr⟩ := dirAdd_spec allReads name ft hs hi h.wellFormed { block := block }
  rcases hr with ⟨hrep, -, hok⟩ | ⟨herr, hsame⟩
  · have hok : (dirAdd bs allReads s.dir name ino ft { block := block }).1 = none := by
      rcases hok with hok | ⟨-, hok⟩
      · exact hok
      · simp at hok
    refine ⟨⟨hw, distinct_insert hrep ((lookup_eq_zero hes).1 hnew) h.distinct, ?_⟩, .inr hrep⟩
    simp only [DirState.add, hok, if_true]
    rw [lookup_insert hrep hes hnew, h.last]
  · have hadd : s.add bs name ino ft block = s := by simp [DirState.add, herr, hsame]
    rw [hadd]
    exact ⟨h, .inl rfl⟩

lemma step_remove (hs : BlockSize bs) (h : DirInvariant bs s) :
    DirInvariant bs (s.remove bs name) ∧ OneEntry bs s (s.remove bs name) (.remove name) := by
  obtain ⟨hw, hr⟩ := dirRemove_spec allReads name hs h.wellFormed true
  rcases hr with ⟨e, he, hrep, hok⟩ | ⟨-, -, k, -, hk⟩ | ⟨herr, hsame, -⟩
  · have hok : (dirRemove bs allReads s.dir name true).1 = none := by
      rcases hok with hok | ⟨-, hok⟩
      · exact hok
      · simp at hok
    refine ⟨⟨hw, distinct_erase hrep h.distinct, ?_⟩, .inr ⟨e, he, hrep⟩⟩
    simp only [DirState.remove, hok, if_true]
    rw [lookup_erase hrep he h.distinct, h.last]
  · simp [allReads] at hk
  · have hrem : s.remove bs name = s := by simp [DirState.remove, herr, hsame]
    rw [hrem]
    exact ⟨h, .inl rfl⟩

lemma step (hs : BlockSize bs) (h : DirInvariant bs s) (hst : (directory bs dir).step s a t) :
    DirInvariant bs t ∧ OneEntry bs s t a := by
  cases a with
  | add name ino ft block =>
    obtain ⟨-, -, hi, hnew, rfl⟩ := hst
    exact h.step_add hs hi hnew
  | remove name =>
    obtain rfl := hst
    exact h.step_remove hs

end DirInvariant

theorem reachable_actsAsMap (hs : BlockSize bs) (hw : WellFormed bs dir) (hd : Distinct bs dir)
    {s : DirState} (h : (directory bs dir).Reachable s) :
    ActsAsMap bs (directory bs dir) s := by
  have hinv : DirInvariant bs s := by
    refine h.invariant ?_ fun s a t hi hst => (hi.step hs hst).1
    intro s hinit
    rw [show s = .start bs dir from hinit]
    exact .start hw hd
  exact ⟨hinv.wellFormed, hinv.find, fun a t hst => (hinv.step hs hst).2⟩

section OneName

def single : Block := freshBlock 1024 (fun _ => 0) 11 1 [97]

lemma single_tiled : Tiled 1024 single 0 [⟨0, 11, 1024, 1, [97]⟩] 1024 :=
  tiled_fresh (by decide) (by decide) (by decide)

lemma single_wellFormed : WellFormed 1024 [some single] := by
  intro b hb
  rw [Option.some.inj (List.mem_singleton.1 hb)]
  exact single_tiled.blockTiled

lemma single_distinct : Distinct 1024 [some single] := by
  have : entries 1024 [some single] = [⟨[97], 11, 1⟩] := by
    simp [entries, single_tiled.blockEntries, live, Rec.entry]
  simp [Distinct, this]

def split : DirState := ((DirState.start 1024 [some single]).add 1024 [98] 13 1 (.error .nospc)).remove 1024 [97]

theorem reachable_actsAsMap_split : split.last [97] = 0 ∧ split.last [98] = 13 ∧
    ActsAsMap 1024 (directory 1024 [some single]) split := by
  refine ⟨by decide +kernel, by decide +kernel, reachable_actsAsMap (by decide) single_wellFormed single_distinct ?_⟩
  refine .step (.remove [97]) (.step (.add [98] 13 1 (.error .nospc)) (.init rfl) ?_) rfl
  exact ⟨by decide, by decide, by decide, by decide +kernel, rfl⟩

end OneName

section DoubledName

def twin : Block := setEntry (setRecLen (setEntry (setRecLen (fun _ => 0) 0 12) 0 11 1 [97]) 12 1012)
  12 13 1 [97]

lemma twin_tiled : Tiled 1024 twin 0 [⟨0, 11, 12, 1, [97]⟩, ⟨12, 13, 1012, 1, [97]⟩] 1024 := by
  refine ⟨by decide, ⟨by decide, by decide, by decide, by decide⟩, by decide,
    ⟨by decide, by decide, by decide, by decide⟩, rfl⟩

lemma twin_wellFormed : WellFormed 1024 [some twin] := by
  intro b hb
  rw [Option.some.inj (List.mem_singleton.1 hb)]
  exact twin_tiled.blockTiled

theorem not_actsAsMap_doubled : ¬ ∀ dir, WellFormed 1024 dir →
    ∀ s, (directory 1024 dir).Reachable s → ActsAsMap 1024 (directory 1024 dir) s := by
  intro h
  have hrun := h [some twin] twin_wellFormed _ (.step (.remove [97]) (.init rfl) rfl)
  have hfind := hrun.find [97]
  revert hfind
  decide

end DoubledName

end MyOS.Fs.Ext2
