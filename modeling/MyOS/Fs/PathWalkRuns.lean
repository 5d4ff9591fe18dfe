import MyOS.Fs.PathWalk

/-! `..` undoes a step down, unless file systems are stacked on each other. -/

namespace MyOS.Fs

open Library Words Function

namespace Mounts

variable {s t : Mounts} {d e p r mp : SbInode} {a w : Name} {ws us : List Name} {k : ℕ}

structure Invariant (s : Mounts) : Prop where
  pos : 0 < s.next
  inverse : ∀ p r, s.mounted p = some r ↔ s.covered r = some p
  root : ∀ p r, s.mounted p = some r → r = s.rootOf r.sb ∧ p.sb < r.sb ∧ r.sb < s.next
  isDir : ∀ p r, s.mounted p = some r → s.isDir p = true
  record : ∀ m ∈ s.mounts, ∀ p, m.mountpoint = some p → s.mounted p = some (s.rootOf m.sb)
  made : ∀ m ∈ s.mounts, m.sb < s.next
  nodup : s.mounts.Nodup
  rootFree : s.mounted s.rootInode = none

/-- The directory is the root of a file system that is mounted on the root of a mounted one. -/
def Stacked (s : Mounts) (d : SbInode) : Prop := ∃ c, s.covered d = some c ∧ s.covered c ≠ none

namespace Invariant

lemma mounted_none (hs : s.Invariant) (h : s.next ≤ p.sb + 1) : s.mounted p = none := by
  cases hm : s.mounted p with
  | none => rfl
  | some r =>
    obtain ⟨-, h₁, h₂⟩ := hs.root p r hm
    omega

lemma covered_root (hs : s.Invariant) : s.covered s.rootInode = none := by
  cases hc : s.covered s.rootInode with
  | none => rfl
  | some p =>
    obtain ⟨-, h, -⟩ := hs.root p _ ((hs.inverse p _).2 hc)
    exact absurd h (Nat.not_lt_zero _)

structure Leads (s : Mounts) (p d : SbInode) : Prop where
  free : s.mounted d = none
  place : d = p ∨ p.sb < d.sb ∧ ∃ c, s.covered d = some c ∧ (c = p ∨ s.covered c ≠ none)

lemma follow_free (h : s.mounted p = none) (k : ℕ) : s.follow k p = p := by
  cases k with
  | zero => rfl
  | succ k => rw [follow, h]

lemma follow_mounted (h : s.mounted p = some r) (k : ℕ) : s.follow (k + 1) p = s.follow k r := by
  rw [follow, h]

lemma follow_leads (hs : s.Invariant) (hk : s.next ≤ p.sb + 1 + k) : Leads s p (s.follow k p) := by
  induction k generalizing p with
  | zero => exact ⟨hs.mounted_none hk, .inl rfl⟩
  | succ k ih =>
    cases hm : s.mounted p with
    | none =>
      rw [follow_free hm]
      exact ⟨hm, .inl rfl⟩
    | some r =>
      rw [follow_mounted hm]
      obtain ⟨-, hlt, -⟩ := hs.root p r hm
      have hc : s.covered r = some p := (hs.inverse p r).1 hm
      obtain ⟨hfree, heq | ⟨hlt', c, hd, hc'⟩⟩ := ih (p := r) (by omega)
      · exact ⟨hfree, .inr ⟨by rw [heq]; exact hlt, p, by rw [heq]; exact hc, .inl rfl⟩⟩
      · refine ⟨hfree, .inr ⟨by omega, c, hd, .inr ?_⟩⟩
        rcases hc' with rfl | hc'
        · rw [hc]
          nofun
        · exact hc'

lemma followMounts_leads (hs : s.Invariant) (p : SbInode) : Leads s p (s.followMounts p) :=
  hs.follow_leads (by omega)

lemma followMounts_free (h : s.mounted p = none) : s.followMounts p = p := follow_free h _

lemma followMounts_once (hs : s.Invariant) (h : s.mounted p = some r) (hr : s.mounted r = none) :
    s.followMounts p = r := by
  obtain ⟨k, hk⟩ := Nat.exists_eq_succ_of_ne_zero hs.pos.ne'
  rw [followMounts, hk, follow_mounted h, follow_free hr]

end Invariant

section Step

lemma lookup_dotDot : s.lookup d dotDot = some ⟨d.sb, ((s.tree d.sb).parent d.num).getD d.num⟩ := by
  rw [lookup, FsTree.lookup, if_pos rfl]
  rfl

lemma lookup_name (ha : a ≠ dotDot) : s.lookup d a = ((s.tree d.sb).find d.num a).map (SbInode.mk d.sb) := by
  rw [lookup, FsTree.lookup, if_neg ha]

lemma step_dot (hd : s.isDir d = true) : s.step d [dot] = .ok d := by
  rw [step, if_neg (by rw [hd]; nofun), if_pos rfl]

lemma step_name (h : s.step e a = .ok d) (hdot : a ≠ [dot]) (hdots : a ≠ dotDot) :
    s.isDir e = true ∧ ∃ n, (s.tree e.sb).find e.num a = some n ∧ d = s.followMounts ⟨e.sb, n⟩ := by
  rw [step] at h
  split_ifs at h with h₁ h₂
  · exact absurd h₂.1 hdots
  · simp only [lookup_name hdots] at h
    cases hf : (s.tree e.sb).find e.num a with
    | none =>
      rw [hf] at h
      cases h
    | some n =>
      rw [hf] at h
      exact ⟨by simpa using h₁, n, rfl, (Except.ok.inj h).symm⟩

lemma step_dotDot (hd : s.isDir d = true) (hroot : d ≠ s.rootInode) :
    s.step d dotDot = .ok (s.followMounts
      ⟨((s.covered d).getD d).sb, ((s.tree ((s.covered d).getD d).sb).parent
        ((s.covered d).getD d).num).getD ((s.covered d).getD d).num⟩) := by
  rw [step, if_neg (by rw [hd]; nofun), if_neg (by decide), if_neg fun h => hroot h.2]
  simp only [if_true, lookup_dotDot]

lemma step_dotDot_root : s.step s.rootInode dotDot = .ok s.rootInode := by
  have hd : s.isDir s.rootInode = true := (s.tree 0).root_isDir
  rw [step, if_neg (by rw [hd]; nofun), if_neg (by decide), if_pos ⟨rfl, rfl⟩]

lemma parent_root (hs : s.Invariant) (h : s.covered r = some p) : (s.tree r.sb).parent r.num = none := by
  obtain ⟨hr, -⟩ := hs.root p r ((hs.inverse p r).2 h)
  have hnum : r.num = (s.tree r.sb).root := congrArg SbInode.num hr
  rw [hnum, (s.tree r.sb).root_parent]

lemma step_dotDot_stacked (hs : s.Invariant) (hd : s.isDir d = true) (hfree : s.mounted d = none)
    (h : s.Stacked d) : s.step d dotDot = .ok d := by
  obtain ⟨c, hc, hne⟩ := h
  obtain ⟨q, hq⟩ := Option.ne_none_iff_exists'.1 hne
  have hroot : d ≠ s.rootInode := by
    rintro rfl
    rw [hs.covered_root] at hc
    cases hc
  rw [step_dotDot hd hroot, hc, Option.getD_some, parent_root hs hq, Option.getD_none]
  exact congrArg Except.ok (hs.followMounts_once ((hs.inverse c d).2 hc) hfree)

lemma step_up_iff (hs : s.Invariant) (he : s.mounted e = none) (h : s.step e a = .ok d) (hdot : a ≠ [dot])
    (hdots : a ≠ dotDot) (hd : s.isDir d = true) : s.step d dotDot = .ok e ↔ ¬ s.Stacked d := by
  obtain ⟨-, n, hf, hn⟩ := step_name h hdot hdots
  have hparent := (s.tree e.sb).parent_find e.num a n hf
  have huncovered : s.isDir ⟨e.sb, n⟩ = true → s.covered ⟨e.sb, n⟩ = none := by
    intro hdir
    cases hc : s.covered ⟨e.sb, n⟩ with
    | none => rfl
    | some q =>
      have hnone := parent_root hs hc
      rw [hparent hdir] at hnone
      cases hnone
  obtain ⟨hfree, hplace⟩ := hs.followMounts_leads ⟨e.sb, n⟩
  rw [← hn] at hfree hplace
  constructor
  · intro hup hstacked
    rw [step_dotDot_stacked hs hd hfree hstacked] at hup
    cases hup
    obtain ⟨c, hc, hne⟩ := hstacked
    rcases hplace with heq | ⟨hlt, -⟩
    · rw [heq] at hc hd
      rw [huncovered hd] at hc
      cases hc
    · exact hlt.false
  · intro hstacked
    have hroot : d ≠ s.rootInode := by
      rintro rfl
      rcases hplace with heq | ⟨hlt, -⟩
      · rw [heq] at hd
        have hnone : (s.tree 0).parent s.rootInode.num = none := (s.tree 0).root_parent
        have hsb : e.sb = 0 := congrArg SbInode.sb heq.symm
        rw [heq, ← hsb, hparent hd] at hnone
        cases hnone
      · exact absurd hlt (Nat.not_lt_zero _)
    rw [step_dotDot hd hroot]
    refine congrArg Except.ok ?_
    have hbase : (s.covered d).getD d = ⟨e.sb, n⟩ ∧ s.isDir ⟨e.sb, n⟩ = true := by
      rcases hplace with heq | ⟨-, c, hc, hor⟩
      · rw [heq] at hd ⊢
        exact ⟨by rw [huncovered hd]; rfl, hd⟩
      · obtain rfl : c = ⟨e.sb, n⟩ := hor.resolve_right fun hne => hstacked ⟨c, hc, hne⟩
        exact ⟨by rw [hc]; rfl, hs.isDir _ d ((hs.inverse _ d).2 hc)⟩
    rw [hbase.1, hparent hbase.2]
    exact Invariant.followMounts_free he

lemma step_free (hs : s.Invariant) (hd : s.mounted d = none) (h : s.step d w = .ok e) : s.mounted e = none := by
  rw [step] at h
  split_ifs at h with h₁ h₂ h₃
  · exact Except.ok.inj h ▸ hd
  · exact Except.ok.inj h ▸ hd
  all_goals
    dsimp only at h
    split at h
    · cases h
    · exact Except.ok.inj h ▸ (hs.followMounts_leads _).free

end Step

section Walk

def component (s : Mounts) (d : SbInode) (w : Name) : Except PathError SbInode :=
  if nameMax < w.length then .error .ENAMETOOLONG else s.step d w

def walk (s : Mounts) (ws : List Name) (d : SbInode) : Except PathError SbInode := ws.foldlM s.component d

lemma walk_cons : s.walk (w :: ws) d = s.component d w >>= s.walk ws := rfl

lemma walk_append : s.walk (us ++ ws) d = s.walk us d >>= s.walk ws := List.foldlM_append

lemma component_ok (h : s.component d w = .ok e) : s.step d w = .ok e := by
  rw [component] at h
  split_ifs at h
  exact h

lemma walk_cons_ok (h : s.walk (w :: ws) d = .ok e) :
    ∃ d', s.component d w = .ok d' ∧ s.walk ws d' = .ok e := by
  rw [walk_cons] at h
  cases hw : s.component d w with
  | error err =>
    rw [hw] at h
    cases h
  | ok d' =>
    rw [hw] at h
    exact ⟨d', rfl, h⟩

lemma walk_append_ok (h : s.walk (us ++ ws) d = .ok e) :
    ∃ d', s.walk us d = .ok d' ∧ s.walk ws d' = .ok e := by
  rw [walk_append] at h
  cases hu : s.walk us d with
  | error err =>
    rw [hu] at h
    cases h
  | ok d' =>
    rw [hu] at h
    exact ⟨d', rfl, h⟩

lemma walk_singleton : s.walk [w] d = s.component d w := by
  rw [walk_cons]
  cases s.component d w <;> rfl

lemma lookupLoop_eq {n : ℕ} {l : List UInt8} (hn : l.length ≤ n) :
    s.lookupLoop n l d = s.walk (words slash l) d := by
  induction n generalizing l d with
  | zero =>
    obtain rfl := List.eq_nil_of_length_eq_zero (Nat.le_zero.1 hn)
    rfl
  | succ n ih =>
    rw [lookupLoop]
    split
    · rename_i h
      rw [words_of_empty h]
      rfl
    · rename_i c r h
      have hlt := length_rest h
      rw [words_of_cons h, walk_cons, component]
      dsimp only
      split_ifs
      · rfl
      · cases s.step d ((c :: r).takeWhile (· != slash)) with
        | error e => rfl
        | ok d' => exact ih (by omega)

def Unstacked (s : Mounts) (ws : List Name) (d : SbInode) : Prop :=
  ∀ us vs e, ws = us ++ dotDot :: vs → s.walk us d = .ok e → ¬ s.Stacked e

lemma Unstacked.tail (h : s.Unstacked (w :: ws) d) (hw : s.component d w = .ok e) : s.Unstacked ws e := by
  rintro us vs e' rfl hwalk
  refine h (w :: us) vs e' rfl ?_
  rw [walk_cons, hw]
  exact hwalk

lemma walk_free (hs : s.Invariant) (hd : s.mounted d = none) (h : s.walk ws d = .ok e) :
    s.mounted e = none := by
  induction ws generalizing d with
  | nil => exact Except.ok.inj h ▸ hd
  | cons w ws ih =>
    obtain ⟨d', hw, hwalk⟩ := walk_cons_ok h
    exact ih (step_free hs hd (component_ok hw)) hwalk

lemma step_isDir (h : s.step d w = .ok e) : s.isDir d = true := by
  by_contra hd
  rw [step, if_pos (by simpa using hd)] at h
  cases h

lemma walk_foldStep (hs : s.Invariant) {stack : List Name} (hplain : ∀ v ∈ stack, PlainName v)
    (hstack : s.walk stack s.rootInode = .ok d) (hd : s.isDir d = true)
    (hun : w = dotDot → ¬ s.Stacked d) :
    s.walk (foldStep stack w) s.rootInode = s.component d w := by
  rw [foldStep]
  split_ifs with hdot hdots
  · subst hdot
    rw [hstack, component, if_neg (by decide), step_dot hd]
  · rw [component, if_neg (by rw [hdots]; decide)]
    have hup := hun hdots
    rw [show w = dotDot from hdots]
    clear hun hdots
    induction stack using List.reverseRecOn with
    | nil =>
      cases hstack
      exact step_dotDot_root.symm
    | append_singleton stack a _ =>
      obtain ⟨e, hwalk, hlast⟩ := walk_append_ok hstack
      have hstep := component_ok (walk_singleton.symm.trans hlast)
      obtain ⟨-, hdot, hdots⟩ := hplain a (by simp)
      rw [List.dropLast_concat, hwalk]
      exact ((step_up_iff hs (walk_free hs hs.rootFree hwalk) hstep hdot hdots hd).2 hup).symm
  · rw [walk_append, hstack]
    exact walk_singleton

lemma walk_foldl (hs : s.Invariant) {stack : List Name} (hplain : ∀ v ∈ stack, PlainName v)
    (hwords : ∀ v ∈ ws, Word slash v) (hstack : s.walk stack s.rootInode = .ok d)
    (hun : s.Unstacked ws d) (h : s.walk ws d = .ok e) :
    s.walk (ws.foldl foldStep stack) s.rootInode = .ok e := by
  induction ws generalizing stack d with
  | nil => exact hstack.trans h
  | cons w ws ih =>
    obtain ⟨d', hw, hwalk⟩ := walk_cons_ok h
    have hnext := (walk_foldStep hs hplain hstack (step_isDir (component_ok hw)) fun he =>
      hun [] ws d (by rw [he]; rfl) rfl).trans hw
    refine ih (fun v hv => ?_) (fun v hv => hwords v (List.mem_cons_of_mem _ hv)) hnext (hun.tail hw) hwalk
    rcases foldStep_mem hv with hv | ⟨rfl, hdot, hdots⟩
    · exact hplain v hv
    · exact ⟨hwords v List.mem_cons_self, hdot, hdots⟩

end Walk

section Lookup

variable {path : CString} {cwd : Option SbInode}

lemma vfsLookup_eq (hne : path.bytes ≠ []) (hlen : path.bytes.length < pathMax) :
    s.vfsLookup path cwd = s.walk (words slash path.bytes) (s.startInode path cwd) := by
  rw [vfsLookup, if_neg hne, if_neg (by omega), lookupLoop_eq le_rfl]

lemma vfsLookup_ok (h : s.vfsLookup path cwd = .ok d) :
    path.bytes ≠ [] ∧ path.bytes.length < pathMax ∧
      s.walk (words slash path.bytes) (s.startInode path cwd) = .ok d := by
  have hne : path.bytes ≠ [] := by
    intro hempty
    rw [vfsLookup, if_pos hempty] at h
    cases h
  have hlen : path.bytes.length < pathMax := by
    by_contra hlong
    rw [vfsLookup, if_neg hne, if_pos (by omega)] at h
    cases h
  exact ⟨hne, hlen, (vfsLookup_eq hne hlen).symm.trans h⟩
lemma startInode_none : s.startInode path none = s.rootInode := by
  rw [startInode]
  split <;> rfl

lemma step_made (hs : s.Invariant) (hd : d.sb < s.next) (h : s.step d w = .ok e) : e.sb < s.next := by
  have hfollow : ∀ p : SbInode, p.sb < s.next → (s.followMounts p).sb < s.next := by
    intro p hp
    obtain ⟨-, heq | ⟨-, c, hc, -⟩⟩ := hs.followMounts_leads p
    · rwa [heq]
    · exact (hs.root c _ ((hs.inverse c _).2 hc)).2.2
  have hbase : ((s.covered d).getD d).sb < s.next := by
    cases hc : s.covered d with
    | none => exact hd
    | some c => exact (hs.root c d ((hs.inverse c d).2 hc)).2.1.trans hd
  have hlookup : ∀ (p c : SbInode) (a : Name), s.lookup p a = some c → c.sb = p.sb := by
    intro p c a hc
    obtain ⟨n, -, rfl⟩ := Option.map_eq_some_iff.1 hc
    rfl
  rw [step] at h
  split_ifs at h with h₁ h₂ h₃
  · exact Except.ok.inj h ▸ hd
  · exact Except.ok.inj h ▸ hd
  all_goals
    dsimp only at h
    split at h
    · cases h
    · rename_i child hc
      rw [← Except.ok.inj h]
      refine hfollow child ?_
      rw [hlookup _ _ _ hc]
      assumption

lemma walk_made (hs : s.Invariant) (hd : d.sb < s.next) (h : s.walk ws d = .ok e) : e.sb < s.next := by
  induction ws generalizing d with
  | nil => exact Except.ok.inj h ▸ hd
  | cons w ws ih =>
    obtain ⟨d', hw, hwalk⟩ := walk_cons_ok h
    exact ih (step_made hs hd (component_ok hw)) hwalk

end Lookup

section Runs

lemma Invariant.mountOn (hs : s.Invariant) (hd : s.isDir mp = true) (hfree : s.mounted mp = none)
    (hroot : mp ≠ s.rootInode) (hmade : mp.sb < s.next) (t : FsTree) : (s.mountOn mp t).Invariant := by
  have hnew : s.covered ⟨s.next, t.root⟩ = none := by
    cases hc : s.covered ⟨s.next, t.root⟩ with
    | none => rfl
    | some p => exact absurd (hs.root p _ ((hs.inverse p _).2 hc)).2.2 (Nat.lt_irrefl _)
  have hrootOf : ∀ i < s.next, (s.mountOn mp t).rootOf i = s.rootOf i := by
    intro i hi
    simp only [rootOf, Mounts.mountOn, update_of_ne hi.ne]
  have hrootNew : (s.mountOn mp t).rootOf s.next = ⟨s.next, t.root⟩ := by
    simp only [rootOf, Mounts.mountOn, update_self]
  have hisDir : ∀ p : SbInode, p.sb < s.next → (s.mountOn mp t).isDir p = s.isDir p := by
    intro p hp
    simp only [Mounts.isDir, Mounts.mountOn, update_of_ne hp.ne]
  have hmounted : ∀ p r, (s.mountOn mp t).mounted p = some r →
      p = mp ∧ r = ⟨s.next, t.root⟩ ∨ p ≠ mp ∧ s.mounted p = some r := by
    intro p r h
    by_cases hp : p = mp
    · subst hp
      simp only [Mounts.mountOn, update_self, Option.some.injEq] at h
      exact .inl ⟨rfl, h.symm⟩
    · simp only [Mounts.mountOn, update_of_ne hp] at h
      exact .inr ⟨hp, h⟩
  refine ⟨Nat.succ_pos _, fun p r => ?_, fun p r h => ?_, fun p r h => ?_, fun m hm p hp => ?_, fun m hm => ?_,
    ?_, ?_⟩
  · by_cases hp : p = mp
    · subst hp
      by_cases hr : r = ⟨s.next, t.root⟩
      · simp [Mounts.mountOn, hr]
      · have hcov : s.covered r ≠ some p := fun hc => by
          rw [(hs.inverse p r).2 hc] at hfree
          cases hfree
        simp [Mounts.mountOn, update_of_ne hr, hcov, Ne.symm hr]
    · by_cases hr : r = ⟨s.next, t.root⟩
      · have hmnt : s.mounted p ≠ some r := fun hc => by
          rw [hr, hs.inverse, hnew] at hc
          cases hc
        simp [Mounts.mountOn, update_of_ne hp, hr ▸ hmnt, hr, Ne.symm hp]
      · simp only [Mounts.mountOn, update_of_ne hp, update_of_ne hr, hs.inverse]
  · show r = (s.mountOn mp t).rootOf r.sb ∧ p.sb < r.sb ∧ r.sb < s.next + 1
    rcases hmounted p r h with ⟨rfl, rfl⟩ | ⟨-, hr⟩
    · exact ⟨hrootNew.symm, hmade, Nat.lt_succ_self _⟩
    · obtain ⟨h₁, h₂, h₃⟩ := hs.root p r hr
      exact ⟨h₁.trans (hrootOf r.sb h₃).symm, h₂, h₃.trans (Nat.lt_succ_self _)⟩
  · rcases hmounted p r h with ⟨rfl, -⟩ | ⟨-, hr⟩
    · rw [hisDir p hmade, hd]
    · obtain ⟨-, h₂, h₃⟩ := hs.root p r hr
      rw [hisDir p (h₂.trans h₃), hs.isDir p r hr]
  · rcases List.mem_append.1 hm with hm | hm
    · have hold := hs.record m hm p hp
      have hne : p ≠ mp := by
        rintro rfl
        rw [hfree] at hold
        cases hold
      rw [hrootOf m.sb (hs.made m hm)]
      exact (update_of_ne hne ..).trans hold
    · obtain rfl := List.mem_singleton.1 hm
      cases hp
      rw [hrootNew]
      exact update_self ..
  · rcases List.mem_append.1 hm with hm | hm
    · exact (hs.made m hm).trans (Nat.lt_succ_self _)
    · obtain rfl := List.mem_singleton.1 hm
      exact Nat.lt_succ_self _
  · refine List.nodup_append.2 ⟨hs.nodup, List.nodup_singleton _, fun m hm m' hm' => ?_⟩
    rintro rfl
    obtain rfl := List.mem_singleton.1 hm'
    exact (hs.made _ hm).false
  · have hzero : (s.mountOn mp t).rootInode = s.rootInode := hrootOf 0 hs.pos
    rw [hzero]
    exact (update_of_ne hroot.symm ..).trans hs.rootFree

lemma Invariant.cutMount (hs : s.Invariant) {m : MountRecord} (hm : m ∈ s.mounts) {q : SbInode}
    (hq : m.mountpoint = some q) : (s.cutMount (s.rootOf m.sb) m).Invariant := by
  have hqm := hs.record m hm q hq
  have hcov := (hs.inverse _ _).1 hqm
  have hmounted : ∀ p r, (s.cutMount (s.rootOf m.sb) m).mounted p = some r ↔ p ≠ q ∧ s.mounted p = some r := by
    intro p r
    simp only [Mounts.cutMount, hq, Option.some.injEq]
    by_cases hp : q = p
    · simp [hp]
    · simp [hp, Ne.symm hp]
  refine ⟨hs.pos, fun p r => ?_, fun p r h => hs.root p r ((hmounted p r).1 h).2,
    fun p r h => hs.isDir p r ((hmounted p r).1 h).2, fun m' hm' p hp => ?_,
    fun m' hm' => hs.made m' (List.mem_of_mem_erase hm'), hs.nodup.erase m, ?_⟩
  · rw [hmounted]
    by_cases hr : r = s.rootOf m.sb
    · have hnone : (s.cutMount (s.rootOf m.sb) m).covered r = none := by
        rw [hr]
        exact update_self ..
      rw [hnone, hs.inverse, hr, hcov]
      simp only [reduceCtorEq, iff_false, not_and, Option.some.injEq]
      exact fun hp he => hp he.symm
    · have hsame : (s.cutMount (s.rootOf m.sb) m).covered r = s.covered r := update_of_ne hr ..
      rw [hsame, ← hs.inverse]
      refine and_iff_right_of_imp ?_
      rintro h rfl
      rw [hqm] at h
      exact hr (Option.some.inj h).symm
  · have hold := hs.record m' (List.mem_of_mem_erase hm') p hp
    refine (hmounted p _).2 ⟨?_, hold⟩
    rintro rfl
    rw [hqm, Option.some.injEq] at hold
    have hsb : m.sb = m'.sb := congrArg SbInode.sb hold
    have heq : m = m' := by
      obtain ⟨i, mp⟩ := m
      obtain ⟨i', mp'⟩ := m'
      obtain rfl : i = i' := hsb
      obtain rfl : mp = mp' := hq.trans hp.symm
      rfl
    subst heq
    exact hs.nodup.not_mem_erase hm'
  · have hnot : (s.cutMount (s.rootOf m.sb) m).mounted s.rootInode = none := by
      cases h : (s.cutMount (s.rootOf m.sb) m).mounted s.rootInode with
      | none => rfl
      | some r =>
        rw [hmounted, hs.rootFree] at h
        cases h.2
    exact hnot

lemma Invariant.change (hs : s.Invariant) {i : ℕ} {tree : FsTree} (hroot : tree.root = (s.tree i).root)
    (hdir : ∀ d, s.mounted d ≠ none → d.sb = i → tree.isDir d.num = true) :
    Invariant { s with tree := update s.tree i tree } := by
  have hrootOf : ∀ j, rootOf { s with tree := update s.tree i tree } j = s.rootOf j := by
    intro j
    by_cases hj : j = i
    · subst hj
      simp only [rootOf, update_self, hroot]
    · simp only [rootOf, update_of_ne hj]
  refine ⟨hs.pos, hs.inverse, fun p r h => ?_, fun p r h => ?_, fun m hm p hp => ?_, hs.made, hs.nodup, ?_⟩
  · rw [hrootOf]
    exact hs.root p r h
  · by_cases hp : p.sb = i
    · have hd := hdir p (by rw [h]; nofun) hp
      simpa only [Mounts.isDir, hp, update_self] using hd
    · simpa only [Mounts.isDir, update_of_ne hp] using hs.isDir p r h
  · rw [hrootOf]
    exact hs.record m hm p hp
  · show s.mounted _ = none
    rw [rootInode, hrootOf]
    exact hs.rootFree

lemma Invariant.of_lookup (hs : s.Invariant) {path : CString} (h : s.vfsLookup path none = .ok mp) :
    mp.sb < s.next := by
  obtain ⟨-, -, hwalk⟩ := vfsLookup_ok h
  rw [startInode_none] at hwalk
  exact walk_made hs hs.pos hwalk

lemma reachable_invariant (h : system.Reachable s) : s.Invariant := by
  refine h.invariant (fun s hi => ?_) fun s a t hs hst => ?_
  · obtain ⟨hnext, hm, hc, hl⟩ := hi
    refine ⟨by omega, fun p r => ?_, fun p r h => ?_, fun p r h => ?_, fun m hmem p hp => ?_, fun m hmem => ?_,
      ?_, hm _⟩
    · rw [hm, hc]
      exact iff_of_false nofun nofun
    · rw [hm] at h
      cases h
    · rw [hm] at h
      cases h
    all_goals rw [hl] at *
    · obtain rfl := List.mem_singleton.1 hmem
      cases hp
    · obtain rfl := List.mem_singleton.1 hmem
      exact hnext ▸ Nat.one_pos
    · exact List.nodup_singleton _
  · cases a with
    | mount target dev fs =>
      rw [show t = s.after (s.vfsMount target dev fs) from hst]
      cases dev with
      | some e => exact hs
      | none =>
        show (s.after (s.vfsLookup target none >>= fun mp => s.mountAt mp fs)).Invariant
        cases hl : s.vfsLookup target none with
        | error e => exact hs
        | ok mp =>
          show (s.after (s.mountAt mp fs)).Invariant
          rw [mountAt]
          split_ifs with hd hbusy
          · exact hs
          · exact hs
          · rw [not_or, not_not] at hbusy
            cases fs with
            | error e => exact hs
            | ok t => exact hs.mountOn (by simpa using hd) hbusy.1 hbusy.2 (hs.of_lookup hl) t
    | umount target busy =>
      rw [show t = s.after (s.vfsUmount target busy) from hst, vfsUmount]
      cases hl : s.vfsLookup target none with
      | error e => exact hs
      | ok p =>
        show (s.after (s.umountAt busy p)).Invariant
        rw [umountAt]
        split
        · exact hs
        · rename_i m hm
          obtain ⟨hmem, hroot⟩ := List.mem_filter.1 (List.mem_of_getLast? hm)
          rw [Bool.and_eq_true, beq_iff_eq, Option.isSome_iff_exists] at hroot
          obtain ⟨⟨q, hq⟩, rfl⟩ := hroot
          split_ifs
          · exact hs
          · exact hs.cutMount hmem hq
    | change i tree =>
      obtain ⟨hroot, hdir, rfl⟩ := hst
      exact hs.change hroot hdir

end Runs

section Reduced

variable {path out : CString}

lemma vfsLookup_abs (habs : path.bytes.head? = some slash) (hlen : path.bytes.length < pathMax) :
    s.vfsLookup path none = s.walk (words slash path.bytes) s.rootInode := by
  rw [vfsLookup_eq (fun h => by rw [h] at habs; cases habs) hlen, startInode_none]

lemma vfsLookup_render (habs : path.bytes.head? = some slash) (hlen : path.bytes.length < pathMax)
    (hout : out.bytes = render (foldPath (words slash path.bytes))) :
    s.vfsLookup out none = s.walk (foldPath (words slash path.bytes)) s.rootInode := by
  obtain ⟨l, hl⟩ := List.head?_eq_some_iff.1 habs
  have hshort := length_render_foldPath l
  rw [← hl, ← hout] at hshort
  rw [hl, List.length_cons] at hlen
  rw [vfsLookup_abs (by rw [hout, render_head]) (by omega), hout,
    words_render fun w hw => (foldPath_words_plain path.bytes w hw).1]

lemma walk_up_iff (hs : s.Invariant) (hdots : dotDot ∉ ws) (hwords : ∀ w ∈ ws, Word slash w)
    (h : s.walk ws s.rootInode = .ok d) (hd : s.isDir d = true) :
    s.step d dotDot = s.walk (foldPath ws).dropLast s.rootInode ↔ ¬ s.Stacked d := by
  have hplain : ∀ v ∈ foldPath ws, PlainName v := fun v hv => (foldPath_plain hwords v hv).1
  have hun : s.Unstacked ws s.rootInode := by
    rintro us vs e rfl -
    exact absurd (by simp) hdots
  have hfold : s.walk (foldPath ws) s.rootInode = .ok d := walk_foldl hs nofun hwords rfl hun h
  revert hfold hplain
  generalize foldPath ws = stack
  intro hplain hfold
  induction stack using List.reverseRecOn with
  | nil =>
    cases hfold
    refine iff_of_true step_dotDot_root ?_
    rintro ⟨c, hc, -⟩
    rw [hs.covered_root] at hc
    cases hc
  | append_singleton stack a _ =>
    obtain ⟨e, hwalk, hlast⟩ := walk_append_ok hfold
    have hstep := component_ok (walk_singleton.symm.trans hlast)
    obtain ⟨-, hdot, hdots⟩ := hplain a (by simp)
    rw [List.dropLast_concat, hwalk]
    exact step_up_iff hs (walk_free hs hs.rootFree hwalk) hstep hdot hdots hd

lemma walk_foldPath (hs : s.Invariant) (hwords : ∀ w ∈ ws, Word slash w) (hun : s.Unstacked ws s.rootInode)
    (hdirs : ∀ k < ws.length, ∃ d, s.walk (ws.take k) s.rootInode = .ok d ∧ s.isDir d = true) :
    s.walk (foldPath ws) s.rootInode = s.walk ws s.rootInode := by
  induction ws using List.reverseRecOn with
  | nil => rfl
  | append_singleton ws w _ =>
    obtain ⟨d, hwalk, hd⟩ := hdirs ws.length (by simp)
    rw [List.take_left] at hwalk
    have hinit : ∀ v ∈ ws, Word slash v := fun v hv => hwords v (List.mem_append_left _ hv)
    have hfold : s.walk (foldPath ws) s.rootInode = .ok d := by
      refine walk_foldl hs nofun hinit rfl ?_ hwalk
      rintro us vs e rfl hus
      exact hun us (vs ++ [w]) e (by simp) hus
    have hplain := fun v hv => (foldPath_plain hinit v hv).1
    rw [foldPath, List.foldl_concat, walk_append, hwalk]
    refine (walk_foldStep hs hplain hfold hd fun he => ?_).trans walk_singleton.symm
    exact hun ws [] d (by rw [he]) hwalk

end Reduced

theorem dotDot_undoes_iff (hs : system.Reachable s) :
    s.step s.rootInode dotDot = .ok s.rootInode ∧
    (∀ (path : CString) (d : SbInode), path.bytes.head? = some slash → dotDot ∉ words slash path.bytes →
      s.vfsLookup path none = .ok d → s.isDir d = true →
      (s.step d dotDot = s.walk (foldPath (words slash path.bytes)).dropLast s.rootInode ↔ ¬ s.Stacked d)) ∧
    (∀ path out : CString, path.bytes.head? = some slash → path.bytes.length < pathMax →
      (∀ k < (words slash path.bytes).length, ∃ d,
        s.walk ((words slash path.bytes).take k) s.rootInode = .ok d ∧ s.isDir d = true) →
      s.Unstacked (words slash path.bytes) s.rootInode →
      out.bytes = render (foldPath (words slash path.bytes)) →
      s.vfsLookup out none = s.vfsLookup path none) := by
  have hinv := reachable_invariant hs
  refine ⟨step_dotDot_root, fun path d habs hdots hlook hd => ?_, fun path out habs hlen hdirs hun hout => ?_⟩
  · obtain ⟨-, -, hwalk⟩ := vfsLookup_ok hlook
    rw [startInode_none] at hwalk
    exact walk_up_iff hinv hdots (fun w hw => (word_of_mem hw).1) hwalk hd
  · rw [vfsLookup_render habs hlen hout, vfsLookup_abs habs hlen]
    exact walk_foldPath hinv (fun w hw => (word_of_mem hw).1) hun hdirs

def oneDir (a : Name) : FsTree where
  root := 0
  isDir _ := true
  find d b := if d = 0 ∧ b = a then some 1 else none
  parent n := if n = 1 then some 0 else none
  root_isDir := rfl
  root_parent := rfl
  parent_find d b n hf _ := by
    split_ifs at hf with h
    cases hf
    rw [if_pos rfl, h.1]

def start (t : FsTree) : Mounts := ⟨fun _ => t, 1, fun _ => none, fun _ => none, [⟨0, none⟩]⟩

def pathA : CString := ⟨[slash, 97], by decide⟩

def mountedOnce : Mounts := (start (oneDir [97])).after ((start (oneDir [97])).vfsMount pathA none (.ok (oneDir [98])))

def mountedTwice : Mounts := mountedOnce.after (mountedOnce.vfsMount pathA none (.ok (oneDir [98])))

lemma mountedOnce_reachable : system.Reachable mountedOnce :=
  .step (.mount pathA none (.ok (oneDir [98]))) (.init ⟨rfl, fun _ => rfl, fun _ => rfl, rfl⟩) rfl

theorem dotDot_undoes_once : mountedOnce.step ⟨1, 0⟩ dotDot = .ok mountedOnce.rootInode :=
  ((dotDot_undoes_iff mountedOnce_reachable).2.1 pathA ⟨1, 0⟩ rfl (by decide) (by decide) (by decide)).2 <| by
    rintro ⟨c, hc, hne⟩
    obtain rfl : ⟨0, 1⟩ = c := Option.some.inj hc
    exact hne (by decide)

theorem dotDot_stays_stacked : ¬ ∀ s, system.Reachable s → ∀ (path : CString) (d : SbInode),
    path.bytes.head? = some slash → dotDot ∉ words slash path.bytes → s.vfsLookup path none = .ok d →
    s.isDir d = true → s.step d dotDot = s.walk (foldPath (words slash path.bytes)).dropLast s.rootInode := by
  intro h
  have hr : system.Reachable mountedTwice :=
    .step (.mount pathA none (.ok (oneDir [98]))) mountedOnce_reachable rfl
  exact absurd (h mountedTwice hr pathA ⟨2, 0⟩ rfl (by decide) (by decide) (by decide)) (by decide)

end Mounts

end MyOS.Fs
