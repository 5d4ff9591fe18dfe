import MyOS.Fs.TmpfsEdits

/-! A scan of an open directory with `tmpfs_readdir`, whose cursor is an index, while names come and go. -/

namespace MyOS.Fs

open Library

/-- One cursor on a directory. The other fields are not in the source: what the calls have returned,
whether one of them has returned 0, the entries that were there at every moment, and those that came
to stand before the cursor without having been returned. -/
structure TmpfsScan where
  w : TreeUsers
  pos : ℕ
  returned : List (ℕ × String)
  ended : Bool
  kept : List TmpfsDirent
  missed : List TmpfsDirent

namespace TmpfsScan

variable (d : ℕ) (s : TmpfsScan)

def entries : List TmpfsDirent := s.w.fs.children d

def seen : List TmpfsDirent := (s.entries d).take (s.pos - 2)

def ahead : List TmpfsDirent := (s.entries d).drop (s.pos - 2)

def listing : List (ℕ × String) :=
  (d, ".") :: ((s.w.fs.parentOf d).getD d, "..") :: (s.entries d).map fun e => (e.inode, e.name)

def start (w : TreeUsers) : TmpfsScan := ⟨w, 0, [], false, w.fs.children d, []⟩

def read : TmpfsScan :=
  match s.w.fs.tmpfsReaddir d s.pos with
  | .error _ => s
  | .ok (r, pos) =>
    { s with
      pos
      returned := r.toList ++ s.returned
      ended := s.ended || r.isNone }

/-- The first entries from the cursor on that are left, as many as a call removes before it. -/
def pulled (a : TreeCall) : List TmpfsDirent :=
  ((s.ahead d).filter (· ∉ s.w.removes a)).take ((s.seen d).countP (· ∈ s.w.removes a))

def edit (a : TreeCall) : TmpfsScan :=
  match s.w.call a with
  | .error _ => s
  | .ok w =>
    { s with
      w
      kept := s.kept.filter (· ∈ w.fs.children d)
      missed := s.pulled d a ++ s.missed }

end TmpfsScan

def TreeUsers.defined : System TreeUsers TreeCall := system.guarded fun w a => w.call a ≠ .error .dangling

def tmpfsScans (d : ℕ) : System TmpfsScan (Option TreeCall) where
  init s := TreeUsers.defined.Reachable s.w ∧ d ∈ s.w.files ∧ s.w.fs.isDir d = true ∧ s = .start d s.w
  step s
    | none, t => s.w.fs.tmpfsReaddir d s.pos ≠ .error .dangling ∧ t = s.read d
    | some a, t => s.w.call a ≠ .error .dangling ∧ d ∈ (s.edit d a).w.files ∧ t = s.edit d a

/-- Only what is there is returned. An entry that was there at every moment has been returned exactly
once at the end, unless it was missed, and so have the two own entries. The end is near when names do
not come and go any more. -/
structure TmpfsScan.Exact (d : ℕ) (s : TmpfsScan) : Prop where
  live : ∀ r pos, s.w.fs.tmpfsReaddir d s.pos = .ok (some r, pos) →
    r ∈ s.listing d ∧ (s.w.fs.inode r.1).isSome = true
  once : s.ended = true → ∀ e ∈ s.kept, s.returned.count (e.inode, e.name) = if e ∈ s.missed then 0 else 1
  own : s.ended = true → ∀ name, name = "." ∨ name = ".." → (s.returned.map Prod.snd).count name = 1
  ends : (s.pos ≤ 1 → s.w.fs.tmpfsReaddir d 1 ≠ .error .dangling) →
    ∃ n ≤ (s.entries d).length + 2 - s.pos + 1, ((TmpfsScan.read d)^[n] s).ended = true

lemma TreeUsers.defined_counts {w : TreeUsers} (h : TreeUsers.defined.Reachable w) : w.Counts := by
  refine h.invariant (fun w hi => ⟨TreeUsers.init_counted hi, fun e he => ?_⟩) fun w a w' hw hs => ?_
  · obtain ⟨k, -, -, hentries, -⟩ := hi
    rw [hentries] at he
    cases he
  · obtain ⟨-, rfl⟩ := hs
    rw [TreeUsers.after]
    cases hr : w.call a with
    | ok w' => exact (hw.call hr).1
    | error e => exact hw

lemma mem_take_filter_append {l gone new : List TmpfsDirent} {p : ℕ} {e : TmpfsDirent}
    (hnd : (l.filter (· ∉ gone) ++ new).Nodup) (he : e ∈ l) (hg : e ∉ gone) :
    e ∈ (l.filter (· ∉ gone) ++ new).take p ↔
      e ∈ l.take p ∨ e ∈ ((l.drop p).filter (· ∉ gone)).take ((l.take p).countP (· ∈ gone)) := by
  have hkept : e ∈ l.filter (· ∉ gone) := List.mem_filter.2 ⟨he, by simpa using hg⟩
  have hnew : e ∉ new := fun hm => (List.nodup_append.1 hnd).2.2 e hkept e hm rfl
  have hsplit : l.filter (· ∉ gone) = (l.take p).filter (· ∉ gone) ++ (l.drop p).filter (· ∉ gone) := by
    rw [← List.filter_append, List.take_append_drop]
  have hlen : (l.take p).countP (· ∈ gone) + ((l.take p).filter (· ∉ gone)).length = (l.take p).length := by
    rw [← List.countP_eq_length_filter, List.length_eq_countP_add_countP (· ∈ gone) (l := l.take p)]
    simp
  rw [List.length_take] at hlen
  have hseen : e ∈ (l.take p).filter (· ∉ gone) ↔ e ∈ l.take p := by
    rw [List.mem_filter, and_iff_left (by simpa using hg)]
  rw [hsplit, List.append_assoc, List.take_append, List.take_of_length_le (by omega), List.take_append,
    List.mem_append, List.mem_append, hseen, or_iff_left (fun hm => hnew (List.mem_of_mem_take hm))]
  by_cases hp : p ≤ l.length
  · rw [show p - ((l.take p).filter (· ∉ gone)).length = (l.take p).countP (· ∈ gone) by omega]
  · rw [List.drop_eq_nil_of_le (by omega), List.filter_nil, List.take_nil, List.take_nil]

inductive Reads (s : TmpfsDirs) (d pos : ℕ) : Option (ℕ × String) → ℕ → Prop
  | dot (h : pos = 0) : Reads s d pos (some (d, ".")) 1
  | dotDot (p : ℕ) (h : pos = 1) (hp : (s.parentOf d).getD d = p) (hs : (s.inode p).isSome = true) :
      Reads s d pos (some (p, "..")) 2
  | entry (e : TmpfsDirent) (h : 2 ≤ pos) (he : (s.children d)[pos - 2]? = some e) :
      Reads s d pos (some (e.inode, e.name)) (pos + 1)
  | finished (h : 2 ≤ pos) (hlen : (s.children d).length ≤ pos - 2) : Reads s d pos none pos

namespace TmpfsDirs

variable {s : TmpfsDirs} {d pos : ℕ} {y : DirNode}

lemma tmpfsReaddir_spec (pos : ℕ) (hd : s.inode d = some y) :
    (pos = 1 ∧ s.tmpfsReaddir d pos = .error .dangling) ∨
      ∃ r pos', s.tmpfsReaddir d pos = .ok (r, pos') ∧ Reads s d pos r pos' := by
  have hparent := parentOf_some hd
  rw [tmpfsReaddir, hd]
  dsimp only
  split_ifs with hzero hone
  · exact .inr ⟨_, _, rfl, .dot hzero⟩
  · cases hp : y.parent with
    | none =>
      refine .inr ⟨_, _, rfl, .dotDot d hone ?_ (hd ▸ rfl)⟩
      rw [hparent, hp]
      rfl
    | some p =>
      dsimp only
      split_ifs with hs
      · refine .inr ⟨_, _, rfl, .dotDot p hone ?_ hs⟩
        rw [hparent, hp]
        rfl
      · exact .inl ⟨hone, rfl⟩
  · have htwo : 2 ≤ pos := by omega
    cases he : (s.children d)[pos - 2]? with
    | none => exact .inr ⟨_, _, rfl, .finished htwo (List.getElem?_eq_none_iff.1 he)⟩
    | some e => exact .inr ⟨_, _, rfl, .entry e htwo he⟩

end TmpfsDirs

namespace TmpfsScan

variable {d : ℕ} {s t : TmpfsScan} {e f : TmpfsDirent} {a : TreeCall} {r : Option (ℕ × String)} {pos : ℕ}

structure Invariant (d : ℕ) (s : TmpfsScan) : Prop where
  counts : s.w.Counts
  held : d ∈ s.w.files
  kept : s.kept ⊆ s.entries d
  returned : ∀ e ∈ s.kept, s.returned.count (e.inode, e.name) = if e ∈ s.seen d ∧ e ∉ s.missed then 1 else 0
  missed : ∀ e ∈ s.kept, e ∈ s.missed → e ∈ s.seen d
  dot : (s.returned.map Prod.snd).count "." = if 0 < s.pos then 1 else 0
  dotDot : (s.returned.map Prod.snd).count ".." = if 1 < s.pos then 1 else 0
  ended : s.ended = true → 2 ≤ s.pos ∧ s.kept ⊆ s.seen d

lemma mem_entries : e ∈ s.entries d ↔ e ∈ s.w.fs.entries ∧ e.dir = d := by
  rw [entries, TmpfsDirs.children, List.mem_filter, decide_eq_true_eq]

namespace Invariant

lemma nodup (h : Invariant d s) : (s.entries d).Nodup := (List.Nodup.of_map _ h.counts.refs.single).filter _

lemma alloc (h : Invariant d s) : ∃ y, s.w.fs.inode d = some y :=
  h.counts.refs.alloc_held (List.mem_cons_of_mem _ (List.mem_append_right _ h.held))

lemma read_cases (h : Invariant d s) : (s.pos = 1 ∧ s.w.fs.tmpfsReaddir d 1 = .error .dangling ∧ s.read d = s) ∨
    ∃ r pos, s.w.fs.tmpfsReaddir d s.pos = .ok (r, pos) ∧ Reads s.w.fs d s.pos r pos ∧
      s.read d = { s with pos, returned := r.toList ++ s.returned, ended := s.ended || r.isNone } := by
  obtain ⟨y, hy⟩ := h.alloc
  rcases TmpfsDirs.tmpfsReaddir_spec s.pos hy with ⟨hone, he⟩ | ⟨r, pos, he, hr⟩
  · refine .inl ⟨hone, hone ▸ he, ?_⟩
    rw [TmpfsScan.read, he]
  · refine .inr ⟨r, pos, he, hr, ?_⟩
    rw [TmpfsScan.read, he]

lemma returned_entry (h : Invariant d s) (htwo : 2 ≤ s.pos) (he : (s.entries d)[s.pos - 2]? = some e)
    (hf : f ∈ s.kept) : ((e.inode, e.name) :: s.returned).count (f.inode, f.name) =
      if f ∈ (s.entries d).take (s.pos + 1 - 2) ∧ f ∉ s.missed then 1 else 0 := by
  obtain ⟨hlt, hget⟩ := List.getElem?_eq_some_iff.1 he
  have htake : (s.entries d).take (s.pos + 1 - 2) = s.seen d ++ [e] := by
    rw [show s.pos + 1 - 2 = s.pos - 2 + 1 by omega, List.take_succ_eq_append_getElem hlt, hget]
    rfl
  have hemem : e ∈ s.entries d := List.mem_of_getElem? he
  simp only [htake, List.count_cons, h.returned f hf, List.mem_append, List.mem_singleton]
  by_cases hfe : f = e
  · have hnd := htake ▸ h.nodup.sublist (List.take_sublist _ _)
    have hnot : e ∉ s.seen d := fun hs => (List.nodup_append.1 hnd).2.2 e hs e List.mem_cons_self rfl
    subst hfe
    have hmiss : f ∉ s.missed := fun hm => hnot (h.missed f hf hm)
    rw [if_neg fun hc => hnot hc.1, if_pos (by simp), if_pos ⟨.inr rfl, hmiss⟩]
  · have hne : ¬ ((e.inode, e.name) == (f.inode, f.name)) = true := by
      intro heq
      have hinode := (Prod.mk.inj (eq_of_beq heq)).1
      exact hfe (h.counts.refs.single_inj (mem_entries.1 (h.kept hf)).1 (mem_entries.1 hemem).1 hinode.symm)
    simp only [if_neg hne, Nat.add_zero, or_iff_left hfe]

lemma readOwn (h : Invariant d s) (n : ℕ) {name : String} (hn : s.pos = 0 ∧ name = "." ∨ s.pos = 1 ∧ name = "..") :
    Invariant d { s with pos := s.pos + 1, returned := (n, name) :: s.returned } := by
  have hseen : ∀ pos, pos ≤ 2 → (s.entries d).take (pos - 2) = [] := fun pos hpos => by
    rw [Nat.sub_eq_zero_of_le hpos, List.take_zero]
  have hold : s.seen d = [] := hseen s.pos (by omega)
  have hnew : TmpfsScan.seen d { s with pos := s.pos + 1, returned := (n, name) :: s.returned } = [] :=
    hseen (s.pos + 1) (by omega)
  refine ⟨h.counts, h.held, h.kept, fun f hf => ?_, fun f hf hm => ?_, ?_, ?_, fun he => ?_⟩
  · have hname := h.counts.names f (mem_entries.1 (h.kept hf)).1
    rw [hnew, List.count_cons_of_ne, h.returned f hf, hold]
    intro hc
    cases hc
    exact hn.elim (fun hn => hname.1 hn.2) fun hn => hname.2 hn.2
  · rw [hnew, ← hold]
    exact h.missed f hf hm
  · have hdot := h.dot
    rw [List.map_cons]
    rcases hn with ⟨hpos, rfl⟩ | ⟨hpos, rfl⟩
    · rw [List.count_cons_self, hdot, hpos]
      rfl
    · rw [List.count_cons_of_ne (show (".." : String) ≠ "." by decide), hdot, hpos]
      rfl
  · have hdotDot := h.dotDot
    rw [List.map_cons]
    rcases hn with ⟨hpos, rfl⟩ | ⟨hpos, rfl⟩
    · rw [List.count_cons_of_ne (show ("." : String) ≠ ".." by decide), hdotDot, hpos]
      rfl
    · rw [List.count_cons_self, hdotDot, hpos]
      rfl
  · have hlow := (h.ended he).1
    omega

lemma read (h : Invariant d s) : Invariant d (s.read d) := by
  rcases h.read_cases with ⟨-, -, heq⟩ | ⟨r, pos, -, hr, heq⟩
  · rw [heq]
    exact h
  rw [heq]
  cases hr with
  | dot hpos =>
    rw [Option.isNone_some, Bool.or_false, show 1 = s.pos + 1 by omega]
    exact h.readOwn d (.inl ⟨hpos, rfl⟩)
  | dotDot p hpos hp hs =>
    rw [Option.isNone_some, Bool.or_false, show 2 = s.pos + 1 by omega]
    exact h.readOwn p (.inr ⟨hpos, rfl⟩)
  | entry e hpos he =>
    have hsub : s.seen d ⊆ (s.entries d).take (s.pos + 1 - 2) :=
      List.take_subset_take_left _ (by omega)
    have hmem : e ∈ s.w.fs.entries := (mem_entries.1 (List.mem_of_getElem? he)).1
    obtain ⟨hdot, hdotDot⟩ := h.counts.names e hmem
    refine ⟨h.counts, h.held, h.kept, fun f hf => h.returned_entry hpos he hf, fun f hf hm => hsub (h.missed f hf hm),
      ?_, ?_, fun hend => ?_⟩
    · have hold := h.dot
      rw [if_pos (by omega)] at hold
      rw [Option.toList_some, List.singleton_append, List.map_cons, List.count_cons_of_ne hdot, hold]
      exact (if_pos (Nat.succ_pos _)).symm
    · have hold := h.dotDot
      rw [if_pos (by omega)] at hold
      rw [Option.toList_some, List.singleton_append, List.map_cons, List.count_cons_of_ne hdotDot, hold]
      exact (if_pos (by show 1 < s.pos + 1; omega)).symm
    · rw [Option.isNone_some, Bool.or_false] at hend
      obtain ⟨hlow, hkept⟩ := h.ended hend
      exact ⟨by show 2 ≤ s.pos + 1; omega, fun f hf => hsub (hkept hf)⟩
  | finished hpos hlen =>
    refine ⟨h.counts, h.held, h.kept, h.returned, h.missed, h.dot, h.dotDot, fun _ => ⟨hpos, fun f hf => ?_⟩⟩
    show f ∈ (s.entries d).take (s.pos - 2)
    have hall : (s.entries d).take (s.pos - 2) = s.entries d := List.take_of_length_le hlen
    rw [hall]
    exact h.kept hf

lemma edit (h : Invariant d s) (a : TreeCall) (hd : d ∈ (s.edit d a).w.files) : Invariant d (s.edit d a) := by
  rw [TmpfsScan.edit] at hd ⊢
  cases hr : s.w.call a with
  | error err => exact h
  | ok w =>
    rw [hr] at hd
    dsimp only at hd ⊢
    obtain ⟨hcounts, new, hentries, hnew⟩ := h.counts.call hr
    set gone := s.w.removes a with hgone
    have hchildren : w.fs.children d = (s.entries d).filter (· ∉ gone) ++ new.filter fun e => e.dir = d := by
      rw [TmpfsDirs.children, hentries, List.filter_append, List.filter_comm]
      rfl
    have hnd : (w.fs.children d).Nodup := (List.Nodup.of_map _ hcounts.refs.single).filter _
    rw [hchildren] at hnd
    have hstay : ∀ f ∈ s.entries d, f ∈ w.fs.children d → f ∉ gone := by
      intro f hf hf'
      rw [hchildren] at hf'
      rcases List.mem_append.1 hf' with hf' | hf'
      · simpa using (List.mem_filter.1 hf').2
      · exact hnew f (List.mem_filter.1 hf').1
    have hseen : ∀ f ∈ s.entries d, f ∈ w.fs.children d →
        (f ∈ (w.fs.children d).take (s.pos - 2) ↔ f ∈ s.seen d ∨ f ∈ s.pulled d a) := by
      intro f hf hf'
      rw [hchildren]
      exact mem_take_filter_append hnd hf (hstay f hf hf')
    have hkept : ∀ f ∈ s.kept.filter (· ∈ w.fs.children d), f ∈ s.kept ∧ f ∈ w.fs.children d := by
      intro f hf
      simpa using List.mem_filter.1 hf
    have hahead : ∀ f, f ∈ s.pulled d a → f ∉ s.seen d := by
      intro f hf hs
      have hdrop : f ∈ (s.entries d).drop (s.pos - 2) := (List.mem_filter.1 (List.mem_of_mem_take hf)).1
      exact List.disjoint_take_drop h.nodup le_rfl hs hdrop
    refine ⟨hcounts, hd, fun f hf => (hkept f hf).2, fun f hf => ?_, fun f hf hm => ?_, h.dot, h.dotDot,
      fun hend => ⟨(h.ended hend).1, fun f hf => ?_⟩⟩
    · obtain ⟨hf, hf'⟩ := hkept f hf
      show s.returned.count _ = if f ∈ (w.fs.children d).take (s.pos - 2) ∧ f ∉ s.pulled d a ++ s.missed then 1 else 0
      rw [h.returned f hf]
      refine if_congr ?_ rfl rfl
      rw [hseen f (h.kept hf) hf', List.mem_append, not_or]
      refine ⟨fun hs => ⟨.inl hs.1, fun hp => hahead f hp hs.1, hs.2⟩, fun hs => ⟨hs.1.resolve_right hs.2.1, hs.2.2⟩⟩
    · obtain ⟨hf, hf'⟩ := hkept f hf
      refine (hseen f (h.kept hf) hf').2 ?_
      exact (List.mem_append.1 hm).symm.imp (h.missed f hf) id
    · obtain ⟨hf, hf'⟩ := hkept f hf
      exact (hseen f (h.kept hf) hf').2 (.inl ((h.ended hend).2 hf))

lemma start {w : TreeUsers} (hw : w.Counts) (hd : d ∈ w.files) : Invariant d (.start d w) := by
  have hseen : (TmpfsScan.start d w).seen d = [] := List.take_zero
  refine ⟨hw, hd, List.Subset.refl _, fun e _ => ?_, nofun, rfl, rfl, nofun⟩
  rw [hseen]
  rfl

lemma reads (h : Invariant d s) (n : ℕ) : Invariant d ((TmpfsScan.read d)^[n] s) := by
  induction n with
  | zero => exact h
  | succ n ih =>
    rw [Function.iterate_succ_apply']
    exact ih.read

lemma ends (h : Invariant d s) (hup : s.pos ≤ 1 → s.w.fs.tmpfsReaddir d 1 ≠ .error .dangling) :
    ∃ n ≤ (s.entries d).length + 2 - s.pos + 1, ((TmpfsScan.read d)^[n] s).ended = true := by
  induction hm : (s.entries d).length + 2 - s.pos generalizing s with
  | zero =>
    refine ⟨1, le_rfl, ?_⟩
    rcases h.read_cases with ⟨hone, -, -⟩ | ⟨r, pos, -, hr, heq⟩
    · omega
    rw [Function.iterate_one, heq]
    cases hr with
    | finished => exact Bool.or_true _
    | dot hpos => omega
    | dotDot p hpos => omega
    | entry e hpos he =>
      have hlt : s.pos - 2 < (s.entries d).length := (List.getElem?_eq_some_iff.1 he).1
      omega
  | succ m ih =>
    rcases h.read_cases with ⟨hone, hbad, -⟩ | ⟨r, pos, -, hr, heq⟩
    · exact absurd hbad (hup hone.le)
    by_cases hend : r = none
    · subst hend
      refine ⟨1, by omega, ?_⟩
      rw [Function.iterate_one, heq]
      exact Bool.or_true _
    · have hpos : pos = s.pos + 1 := by
        cases hr with
        | finished => exact absurd rfl hend
        | dot hpos => omega
        | dotDot p hpos => omega
        | entry e hpos he => rfl
      have hlen : ((s.read d).entries d).length + 2 - (s.read d).pos = m := by
        rw [heq]
        show (s.entries d).length + 2 - pos = m
        omega
      have hup' : (s.read d).pos ≤ 1 → (s.read d).w.fs.tmpfsReaddir d 1 ≠ .error .dangling := by
        rw [heq]
        exact fun hle => hup (by dsimp only at hle; omega)
      obtain ⟨n, hn, hended⟩ := ih h.read hup' hlen
      exact ⟨n + 1, by omega, hended⟩

lemma exact (h : Invariant d s) : s.Exact d where
  live r pos he := by
    rcases h.read_cases with ⟨hone, hbad, -⟩ | ⟨r', pos', he', hr, -⟩
    · rw [hone, hbad] at he
      cases he
    cases he'.symm.trans he
    cases hr with
    | dot hpos =>
      obtain ⟨y, hy⟩ := h.alloc
      exact ⟨List.mem_cons_self, hy ▸ rfl⟩
    | dotDot p hpos hp hs => exact ⟨List.mem_cons_of_mem _ (hp ▸ List.mem_cons_self), hs⟩
    | entry e hpos hget =>
      have hmem : e ∈ s.entries d := List.mem_of_getElem? hget
      obtain ⟨y, hy⟩ := h.counts.refs.alloc_entry (mem_entries.1 hmem).1
      exact ⟨List.mem_cons_of_mem _ (List.mem_cons_of_mem _ (List.mem_map_of_mem hmem)), hy ▸ rfl⟩
  once hend e he := by
    rw [h.returned e he]
    by_cases hm : e ∈ s.missed
    · rw [if_neg fun hc => hc.2 hm, if_pos hm]
    · rw [if_pos ⟨(h.ended hend).2 he, hm⟩, if_neg hm]
  own hend name hname := by
    have hlow := (h.ended hend).1
    rcases hname with rfl | rfl
    · exact h.dot.trans (if_pos (by omega))
    · exact h.dotDot.trans (if_pos (by omega))
  ends := h.ends

end Invariant

lemma reachable_invariant (h : (tmpfsScans d).Reachable s) : Invariant d s := by
  refine h.invariant (fun s hi => ?_) fun s a t hi hs => ?_
  · obtain ⟨hw, hd, -, hs⟩ := hi
    rw [hs]
    exact .start (TreeUsers.defined_counts hw) hd
  · cases a with
    | none =>
      obtain ⟨-, rfl⟩ := hs
      exact hi.read
    | some a =>
      obtain ⟨-, hd, rfl⟩ := hs
      exact hi.edit a hd

theorem scans_exact (h : (tmpfsScans d).Reachable s) : s.Exact d := (reachable_invariant h).exact

section ThreeFiles

def opened : TreeUsers :=
  let w := TreeUsers.start.after (.creat 0 ⟨true, []⟩ "a" true false true true)
  let w := (w.after (.close 0)).after (.creat 0 ⟨true, []⟩ "b" true false true true)
  let w := (w.after (.close 0)).after (.creat 0 ⟨true, []⟩ "c" true false true true)
  (w.after (.close 0)).after (.opens 0 ⟨true, []⟩ false true)

lemma ne_dangling_of_ok {α : Type} {r : Except TreeError α} (h : r.toBool = true) : r ≠ .error .dangling := by
  rintro rfl
  cases h

lemma opened_start : (tmpfsScans 0).init (.start 0 opened) := by
  refine ⟨?_, by decide +kernel, by decide +kernel, rfl⟩
  have hafter : ∀ {w : TreeUsers} (a : TreeCall), TreeUsers.defined.Reachable w → (w.call a).toBool = true →
      TreeUsers.defined.Reachable (w.after a) := fun a hw hc => .step a hw ⟨ne_dangling_of_ok hc, rfl⟩
  have hfirst := hafter (.creat 0 ⟨true, []⟩ "a" true false true true) (.init TreeUsers.start_init) rfl
  have hsecond := hafter (.creat 0 ⟨true, []⟩ "b" true false true true) (hafter (.close 0) hfirst rfl) rfl
  have hthird := hafter (.creat 0 ⟨true, []⟩ "c" true false true true) (hafter (.close 0) hsecond rfl) rfl
  exact hafter (.opens 0 ⟨true, []⟩ false true) (hafter (.close 0) hthird rfl) rfl

/-- `a` is removed when it was returned; the next calls return `c` and 0. -/
def scanned : { s : TmpfsScan // (tmpfsScans 0).Reachable s } :=
  have hread : ∀ {s : TmpfsScan}, (tmpfsScans 0).Reachable s → (s.w.fs.tmpfsReaddir 0 s.pos).toBool = true →
      (tmpfsScans 0).Reachable (s.read 0) := fun hs hc => .step none hs ⟨ne_dangling_of_ok hc, rfl⟩
  have hthree := hread (hread (hread (.init opened_start) rfl) rfl) rfl
  have hgone := System.Reachable.step (some (.unlink 0 ⟨true, []⟩ "a")) hthree
    ⟨ne_dangling_of_ok rfl, by decide +kernel, rfl⟩
  ⟨_, hread (hread hgone rfl) rfl⟩

theorem scans_exact_scanned : scanned.1.returned = [(3, "c"), (1, "a"), (0, ".."), (0, ".")] ∧ scanned.1.ended = true ∧
    scanned.1.kept = [⟨0, "b", 2⟩, ⟨0, "c", 3⟩] ∧ scanned.1.missed = [⟨0, "b", 2⟩] ∧ scanned.1.Exact 0 :=
  ⟨rfl, rfl, rfl, rfl, scans_exact scanned.2⟩

theorem scans_miss : ¬ ∀ d s, (tmpfsScans d).Reachable s → s.ended = true →
    ∀ e ∈ s.kept, s.returned.count (e.inode, e.name) = 1 := by
  intro hall
  exact absurd (hall 0 scanned.1 scanned.2 (by decide +kernel) ⟨0, "b", 2⟩ (by decide +kernel)) (by decide +kernel)

end ThreeFiles

end TmpfsScan

end MyOS.Fs
