import MyOS.Fs.Initrd

/-! The archives of the `ustar` format, and the tree that they stand for. -/

namespace MyOS.Fs

open Library Words Function

structure Member where
  pre : List UInt8
  name : List UInt8
  mode : ℕ
  type : UInt8
  data : List UInt8

namespace Member

variable (e : Member)

def IsDir : Prop := e.type = 53
def IsFile : Prop := e.type = 48 ∨ e.type = 0

instance : Decidable e.IsDir := inferInstanceAs (Decidable (_ = _))
instance : Decidable e.IsFile := inferInstanceAs (Decidable (_ ∨ _))

def words : List Name := Words.words slash (if e.pre = [] then e.name else e.pre ++ slash :: e.name)

def path : List Name := place e.words

def perm : ℕ := e.mode &&& permBits

def entry (mode : ℕ) : Entry := if e.IsDir then .dir mode else .file mode e.data

def IsTop : Prop := e.IsDir ∧ (e.words = [] ∨ e.words = [[dot]])

end Member

def octal (digits : List UInt8) : ℕ := digits.foldl (fun v c => v * 8 + (c.toNat - 48)) 0

def OctalField (l : List UInt8) (v : ℕ) : Prop :=
  ∃ digits pad, l = digits ++ pad ∧ digits ≠ [] ∧ (∀ c ∈ digits, 48 ≤ c ∧ c ≤ 55) ∧
    (∀ c ∈ pad, c = 0 ∨ c = 32) ∧ octal digits = v

def TextField (l t : List UInt8) : Prop := 0 ∉ t ∧ ∃ k, l = t ++ List.replicate k 0

structure Header (m : ℕ → UInt8) (off : ℕ) (e : Member) : Prop where
  name : TextField (Bytes.load m off 100) e.name
  nonempty : e.name ≠ []
  mode : OctalField (Bytes.load m (off + 100) 8) e.mode
  size : OctalField (Bytes.load m (off + 124) 12) e.data.length
  type : Bytes.load m (off + 156) 1 = [e.type]
  magic : Bytes.load m (off + 257) 5 = Initrd.magic
  pre : TextField (Bytes.load m (off + 345) 155) e.pre

inductive Archive (m : ℕ → UInt8) (size : ℕ) : ℕ → List Member → Prop
  | stop {off : ℕ} (h : size < off + tarBlock ∨ m off = 0) : Archive m size off []
  | member {off : ℕ} {e : Member} {es : List Member} (hh : Header m off e)
      (hdata : Bytes.load m (off + tarBlock) e.data.length = e.data)
      (hfit : off + tarBlock + e.data.length ≤ size)
      (hrest : Archive m size (off + (tarBlock + (e.data.length + tarBlock - 1) / tarBlock * tarBlock)) es) :
      Archive m size off (e :: es)

def named (es : List Member) (p : List Name) : List Member :=
  es.filter fun e => (e.IsDir ∨ e.IsFile) ∧ e.path = p

structure Fits (before : NameTree) (done : List Member) (e : Member) (ws : List Name) (a : Name) : Prop where
  words : e.words = ws ++ [a]
  short : ∀ w ∈ ws ++ [a], w.length ≤ nameMax
  plain : a ≠ [dot] ∧ a ≠ dotDot
  dirs : ∀ k ≤ ws.length, before.IsDir (place (ws.take k)) ∨
    ∃ d ∈ done, d.IsDir ∧ d.path = place (ws.take k)
  sameKind : ∀ d ∈ done, d.path = e.path → (d.IsDir → e.IsDir) ∧ (d.IsFile → e.IsFile)
  oldKind : ∀ x, before e.path = some x →
    (e.IsDir → ∃ mode, x = .dir mode) ∧ (e.IsFile → ∃ mode bytes, x = .file mode bytes)

/-- Each directory comes before its members, and the names are such as the file system takes. -/
def WellFormed (before : NameTree) (es : List Member) : Prop :=
  ∀ done e rest, es = done ++ e :: rest → e.IsDir ∨ e.IsFile → e.IsTop ∨ ∃ ws a, Fits before done e ws a

def firstMode (before : NameTree) (es : List Member) (p : List Name) : ℕ :=
  (before p).elim ((named es p).head?.elim 0 Member.perm) Entry.mode

def lastMode (es : List Member) (p : List Name) : ℕ := (named es p).getLast?.elim 0 Member.perm

structure Unpacked (before : NameTree) (es : List Member) (mode : List Name → ℕ) (after : NameTree) : Prop where
  old : ∀ p, named es p = [] → after p = before p
  dir : ∀ p, ∀ e ∈ (named es p).getLast?, e.IsDir → after.IsDir p
  file : ∀ p, ∀ e ∈ (named es p).getLast?, e.IsFile → after p = some (.file (mode p) e.data)

def treeAfter (before : NameTree) (es : List Member) : NameTree := fun p =>
  match (named es p).getLast? with
  | none => before p
  | some e => some (e.entry (firstMode before es p))

structure Room.Enough (r : Room) : Prop where
  node : r.node = true
  file : r.file = true
  heap : r.heap = true
  page : ∀ i, r.page i = true

section TreeAfter

variable {before : NameTree} {done es : List Member} {e : Member} {p q ws : List Name} {a : Name}

lemma Member.IsDir.not_isFile (h : e.IsDir) : ¬ e.IsFile := by
  rw [Member.IsDir] at h
  rw [Member.IsFile, h]
  decide

lemma named_concat : named (done ++ [e]) p =
    named done p ++ if (e.IsDir ∨ e.IsFile) ∧ e.path = p then [e] else [] := by
  rw [named, List.filter_append, named, List.filter_singleton]
  by_cases hp : (e.IsDir ∨ e.IsFile) ∧ e.path = p <;> simp [hp]
lemma treeAfter_skip (h : ¬ (e.IsDir ∨ e.IsFile)) : treeAfter before (done ++ [e]) = treeAfter before done := by
  funext p
  have hnamed : named (done ++ [e]) p = named done p := by
    rw [named_concat, if_neg fun hc => h hc.1, List.append_nil]
  rw [treeAfter, treeAfter, firstMode, firstMode, hnamed]

lemma treeAfter_concat (h : e.IsDir ∨ e.IsFile) : treeAfter before (done ++ [e]) =
    update (treeAfter before done) e.path
      (some (e.entry ((treeAfter before done e.path).elim e.perm Entry.mode))) := by
  have hmode : ∀ (e : Member) n, (e.entry n).mode = n := fun e n => by
    rw [Member.entry]
    split_ifs <;> rfl
  funext p
  by_cases hp : p = e.path
  · subst hp
    rw [update_self, treeAfter, treeAfter, firstMode, firstMode, named_concat, if_pos ⟨h, rfl⟩,
      List.getLast?_concat]
    dsimp only
    congr 2
    cases hn : named done e.path with
    | nil => cases before e.path <;> rfl
    | cons d ds =>
      rw [List.getLast?_cons, Option.elim_some, hmode]
      cases before e.path <;> rfl
  · have hnamed : named (done ++ [e]) p = named done p := by
      rw [named_concat, if_neg fun hc => hp hc.2.symm, List.append_nil]
    rw [update_of_ne hp, treeAfter, treeAfter, firstMode, firstMode, hnamed]

lemma Fits.kind (h : Fits before done e ws a) {x : Entry} (hx : treeAfter before done e.path = some x) :
    (e.IsDir → ∃ mode, x = .dir mode) ∧ (e.IsFile → ∃ mode bytes, x = .file mode bytes) := by
  rw [treeAfter] at hx
  split at hx
  · exact h.oldKind x hx
  · rename_i d hd
    cases hx
    have hmem := List.mem_filter.1 (List.mem_of_getLast? hd)
    simp only [decide_eq_true_eq] at hmem
    obtain ⟨hdone, hkept, hpath⟩ := hmem
    obtain ⟨hdir, hfile⟩ := h.sameKind d hdone hpath
    rcases hkept with hk | hk
    · refine ⟨fun _ => ⟨_, if_pos hk⟩, fun hc => absurd hc (hdir hk).not_isFile⟩
    · refine ⟨fun hc => absurd (hfile hk) hc.not_isFile, fun _ => ⟨_, _, if_neg fun hc => ?_⟩⟩
      exact hc.not_isFile hk

lemma WellFormed.init (h : WellFormed before (done ++ es)) : WellFormed before done := by
  intro d e rest hs
  exact h d e (rest ++ es) (by rw [hs, List.append_assoc, List.cons_append])

lemma treeAfter_isDir (h : WellFormed before done)
    (hq : before.IsDir q ∨ ∃ d ∈ done, d.IsDir ∧ d.path = q) : (treeAfter before done).IsDir q := by
  induction done using List.reverseRecOn with
  | nil =>
    rcases hq with hq | ⟨d, hd, -⟩
    · exact hq
    · cases hd
  | append_singleton done e ih =>
    by_cases he : e.IsDir ∨ e.IsFile
    · rw [treeAfter_concat he]
      by_cases hdir : e.IsDir
      · by_cases hp : q = e.path
        · subst hp
          exact ⟨_, (update_self ..).trans (congrArg some (if_pos hdir))⟩
        · have hq' : before.IsDir q ∨ ∃ d ∈ done, d.IsDir ∧ d.path = q := by
            refine hq.imp_right fun ⟨d, hd, hdd, hdp⟩ => ?_
            rcases List.mem_append.1 hd with hd | hd
            · exact ⟨d, hd, hdd, hdp⟩
            · exact absurd (List.mem_singleton.1 hd ▸ hdp).symm hp
          obtain ⟨mode, hm⟩ := ih h.init hq'
          exact ⟨mode, (update_of_ne hp ..).trans hm⟩
      · have hq' : before.IsDir q ∨ ∃ d ∈ done, d.IsDir ∧ d.path = q := by
          refine hq.imp_right fun ⟨d, hd, hdd, hdp⟩ => ?_
          rcases List.mem_append.1 hd with hd | hd
          · exact ⟨d, hd, hdd, hdp⟩
          · exact absurd (List.mem_singleton.1 hd ▸ hdd) hdir
        obtain ⟨mode, hm⟩ := ih h.init hq'
        refine ⟨mode, (update_of_ne ?_ ..).trans hm⟩
        rintro rfl
        -- no file takes the place of a directory
        obtain ht | ⟨ws, a, hf⟩ := h done e [] rfl he
        · exact hdir ht.1
        · obtain ⟨_, _, hc⟩ := (hf.kind hm).2 (he.resolve_left hdir)
          cases hc
    · rw [treeAfter_skip he]
      refine ih h.init (hq.imp_right fun ⟨d, hd, hdd, hdp⟩ => ?_)
      rcases List.mem_append.1 hd with hd | hd
      · exact ⟨d, hd, hdd, hdp⟩
      · exact absurd (.inl (List.mem_singleton.1 hd ▸ hdd)) he

lemma Fits.accepted (h : Fits before done e ws a) (hwf : WellFormed before done) :
    Accepted (treeAfter before done) ws a :=
  ⟨h.short, h.plain, fun k hk => treeAfter_isDir hwf (h.dirs k hk)⟩

lemma Fits.path (h : Fits before done e ws a) : e.path = place ws ++ [a] := by
  rw [Member.path, h.words, place, List.foldl_append]
  simp [lexStep, h.plain, place]

lemma unpacked_treeAfter (before : NameTree) (es : List Member) :
    Unpacked before es (firstMode before es) (treeAfter before es) where
  old p hp := by rw [treeAfter, hp]; rfl
  dir p e he hdir := ⟨firstMode before es p, by
    rw [Option.mem_def] at he
    rw [treeAfter, he]
    exact congrArg some (if_pos hdir)⟩
  file p e he hfile := by
    rw [Option.mem_def] at he
    rw [treeAfter, he]
    exact congrArg some (if_neg fun hc => hc.not_isFile hfile)

end TreeAfter

namespace Initrd

open Looping

section Fields

variable {m : ℕ → UInt8} {size off v : ℕ} {l t pre name : List UInt8} {e : Member}

lemma parseOctalFrom_append {digits pad : List UInt8} (hd : ∀ c ∈ digits, 48 ≤ c ∧ c ≤ 55)
    (hpad : ∀ c ∈ pad, c = 0 ∨ c = 32) (hv : (v + 1) * 8 ^ digits.length ≤ 2 ^ 64) :
    parseOctalFrom v (digits ++ pad) = digits.foldl (fun v c => v * 8 + (c.toNat - 48)) v := by
  induction digits generalizing v with
  | nil =>
    cases pad with
    | nil => rfl
    | cons c pad =>
      rw [List.nil_append, parseOctalFrom, if_neg ?_]
      · rfl
      · rcases hpad c List.mem_cons_self with rfl | rfl <;> decide
  | cons c digits ih =>
    obtain ⟨hc, hd⟩ := List.forall_mem_cons.1 hd
    have hdigit : c.toNat ≤ 55 := UInt8.le_iff_toNat_le.1 hc.2
    rw [List.length_cons, pow_succ] at hv
    have hpos : 1 ≤ 8 ^ digits.length := Nat.one_le_pow _ _ (by decide)
    have hstep : (v * 8 + (c.toNat - 48) + 1) * 8 ^ digits.length ≤ 2 ^ 64 := by
      calc (v * 8 + (c.toNat - 48) + 1) * 8 ^ digits.length ≤ ((v + 1) * 8) * 8 ^ digits.length :=
            Nat.mul_le_mul_right _ (by omega)
        _ = (v + 1) * (8 ^ digits.length * 8) := by ring
        _ ≤ 2 ^ 64 := hv
    have hsmall : v * 8 + (c.toNat - 48) < 2 ^ 64 := by
      have := Nat.le_mul_of_pos_right (v * 8 + (c.toNat - 48) + 1) hpos
      omega
    rw [List.cons_append, parseOctalFrom, if_pos hc, Nat.mod_eq_of_lt hsmall, ih hd hstep, List.foldl_cons]

lemma parseOctal_field (h : OctalField l v) (hlen : l.length ≤ 12) : parseOctal l = v := by
  obtain ⟨digits, pad, rfl, -, hd, hpad, rfl⟩ := h
  refine parseOctalFrom_append hd hpad ?_
  rw [List.length_append] at hlen
  calc (0 + 1) * 8 ^ digits.length ≤ (0 + 1) * 8 ^ 12 :=
        Nat.mul_le_mul_left _ (Nat.pow_le_pow_right (by decide) (by omega))
    _ ≤ 2 ^ 64 := by decide

lemma text_field (h : TextField l t) : text l = t := by
  obtain ⟨h0, k, rfl⟩ := h
  rw [text, List.takeWhile_append_of_pos fun c hc => ?_]
  · cases k <;> simp [List.replicate_succ]
  · simp only [bne_iff_ne]
    rintro rfl
    exact h0 hc

lemma length_le_of_field (h : TextField l t) : t.length ≤ l.length := by
  obtain ⟨-, k, rfl⟩ := h
  rw [List.length_append]
  omega

lemma words_rdropWhile (l : List UInt8) : words slash (l.rdropWhile (· == slash)) = words slash l := by
  induction l using List.reverseRecOn with
  | nil => rfl
  | append_singleton l c ih =>
    rw [List.rdropWhile_concat]
    split_ifs with hc
    · obtain rfl := beq_iff_eq.1 hc
      rw [ih, words_append_sep, words_nil, List.append_nil]
    · rfl

lemma path_words (hlen : pre.length ≤ 155) (hname : name.length ≤ 100) :
    (path pre name).length < pathMax ∧
      words slash (path pre name) = words slash (if pre = [] then name else pre ++ slash :: name) := by
  have hfull : ∃ l, (if pre = [] then slash :: name else slash :: (pre ++ slash :: name)) = slash :: l ∧
      l = (if pre = [] then name else pre ++ slash :: name) ∧ l.length ≤ 256 := by
    split_ifs
    · exact ⟨name, rfl, rfl, by omega⟩
    · refine ⟨pre ++ slash :: name, rfl, rfl, ?_⟩
      rw [List.length_append, List.length_cons]
      omega
  obtain ⟨l, hl, heq, hshort⟩ := hfull
  have hmax : pathMax = 1024 := rfl
  rw [path, hl, ← heq, List.take_of_length_le (by rw [List.length_cons]; omega), trim]
  refine ⟨?_, by rw [words_sep, words_rdropWhile]⟩
  have hle := (List.rdropWhile_prefix (p := (· == slash)) l).length_le
  rw [List.length_cons]
  omega

structure Reads (m : ℕ → UInt8) (off : ℕ) (e : Member) : Prop where
  size : sizeAt m off = e.data.length
  mode : modeAt m off = e.perm
  words : words slash (pathAt m off) = e.words
  short : (pathAt m off).length < pathMax

lemma reads_of_header (h : Header m off e) : Reads m off e := by
  have hsize : parseOctal (Bytes.load m (off + 124) 12) = e.data.length :=
    parseOctal_field h.size Bytes.length_load.le
  have hmode : parseOctal (Bytes.load m (off + 100) 8) = e.mode :=
    parseOctal_field h.mode (Bytes.length_load.le.trans (by decide))
  have hlt := parseOctal_lt (Bytes.load m (off + 100) 8)
  rw [Bytes.length_load, hmode] at hlt
  have hpre := length_le_of_field h.pre
  have hname := length_le_of_field h.name
  rw [Bytes.length_load] at hpre hname
  obtain ⟨hshort, hwords⟩ := path_words hpre hname
  refine ⟨hsize, ?_, ?_, ?_⟩
  · rw [modeAt, hmode, Nat.mod_eq_of_lt (by omega), Member.perm]
  · rw [pathAt, text_field h.pre, text_field h.name, hwords, Member.words]
  · rw [pathAt, text_field h.pre, text_field h.name]
    exact hshort

lemma headerAt_of_header (h : Header m off e) (hfit : off + tarBlock + e.data.length ≤ size) :
    HeaderAt m size off := by
  have hread := (reads_of_header h).size
  refine ⟨(Nat.mod_le _ _).trans (by omega), fun hfirst => ?_, h.magic, ?_⟩
  · -- the first byte of the name is not zero
    obtain ⟨h0, k, hk⟩ := h.name
    obtain ⟨c, cs, hc⟩ := List.exists_cons_of_ne_nil h.nonempty
    have hhead : (Bytes.load m off 100).head? = some (m off) := rfl
    have hzero : m off = 0 := List.singleton_inj.1 hfirst
    rw [hk, hc, hzero, List.cons_append, List.head?_cons] at hhead
    rw [hc, Option.some.inj hhead] at h0
    exact h0 List.mem_cons_self
  · rw [hread]
    exact (Nat.mod_le _ _).trans hfit

lemma not_headerAt_of_stop (hsize : size ≤ 2 ^ 47) (hoff : off ≤ size + tarBlock)
    (h : size < off + tarBlock ∨ m off = 0) : ¬ HeaderAt m size off := by
  rintro hh
  have hin := hh.inside hsize hoff
  rcases h with h | h
  · omega
  · exact hh.first (congrArg (fun c => [c]) h)

end Fields

section Run

variable {m : ℕ → UInt8} {size : ℕ} {rooms : ℕ → Room} {r : Room} {s : Unpacking} {e : Member}
  {before : NameTree} {done es : List Member} {ws : List Name} {a : Name}

lemma unpackDir_top (h : Reads m s.off e) (ht : e.IsTop) :
    (unpackDir (pathAt m s.off) (modeAt m s.off) r s).fs = s.fs := by
  have hparent : ∀ x, s.fs.lookupParent (pathAt m s.off) ≠ .ok x := by
    intro x hx
    rw [RamFs.lookupParent] at hx
    split_ifs at hx with hne hlong
    have hloop : ∃ last, (last = [] ∨ last = [dot]) ∧
        s.fs.parentLoop (pathAt m s.off).length (pathAt m s.off) s.fs.root = .ok (s.fs.root, last) := by
      rcases ht.2 with hw | hw
      · refine ⟨[], .inl rfl, ?_⟩
        obtain ⟨c, cs, hc⟩ := List.exists_cons_of_ne_nil hne
        have hnone : (pathAt m s.off).dropWhile (· == slash) = [] := by
          by_contra hne
          obtain ⟨c, cs, hc⟩ := List.exists_cons_of_ne_nil hne
          rw [← h.words, words_of_cons hc] at hw
          cases hw
        rw [hc] at hnone ⊢
        rw [List.length_cons, RamFs.parentLoop, hnone]
      · have hshort : ∀ w ∈ ([] : List Name) ++ [[dot]], w.length ≤ nameMax := by decide
        exact ⟨[dot], .inr rfl, RamFs.parentLoop_eq le_rfl (h.words.trans hw) hshort⟩
    obtain ⟨last, hlast, hloop⟩ := hloop
    rw [hloop] at hx
    dsimp only at hx
    rw [if_pos (hlast.imp_right Or.inl)] at hx
    cases hx
  rw [unpackDir]
  split_ifs
  · rw [RamFs.vfsMkdir]
    cases hp : s.fs.lookupParent (pathAt m s.off) with
    | error e => rfl
    | ok x => exact absurd hp (hparent x)
  · rfl

lemma memberAt_treeAfter (hs : s.fs.Sound) (htree : s.fs.tree = treeAfter before done)
    (hwf : WellFormed before (done ++ [e])) (hh : Header m s.off e)
    (hdata : Bytes.load m (s.off + tarBlock) e.data.length = e.data) (hroom : r.Enough) :
    ∃ t, memberAt m r s = some t ∧ t.fs.Sound ∧ t.fs.tree = treeAfter before (done ++ [e]) := by
  have hread := reads_of_header hh
  have hperm : e.perm &&& permBits = e.perm := by rw [Member.perm, Nat.and_assoc, Nat.and_self]
  by_cases hkept : e.IsDir ∨ e.IsFile
  swap
  · -- other members are skipped
    refine ⟨s, ?_, hs, htree.trans (treeAfter_skip hkept).symm⟩
    have htypes : ¬ [e.type] = [53] ∧ ¬ ([e.type] = [48] ∨ [e.type] = [0]) := by
      simpa [Member.IsDir, Member.IsFile, not_or] using hkept
    rw [memberAt, hh.type, if_neg htypes.1, if_neg htypes.2]
  obtain htop | ⟨ws, a, hfits⟩ := hwf done e [] rfl hkept
  · have hfs := unpackDir_top (r := r) hread htop
    refine ⟨unpackDir (pathAt m s.off) (modeAt m s.off) r s, ?_, hfs ▸ hs, ?_⟩
    · rw [memberAt, hh.type, htop.1, if_pos rfl]
    · have hpath : e.path = [] := by
        rw [Member.path]
        rcases htop.2 with hw | hw <;> rw [hw] <;> rfl
      obtain ⟨mode, hroot⟩ := RamFs.isDir_iff.2 ⟨s.fs.root, RamFs.resolve_nil, hs.root⟩
      rw [hfs, treeAfter_concat hkept, ← htree, hpath, hroot, Option.elim_some, Member.entry, if_pos htop.1]
      exact (update_eq_self_iff.2 hroot.symm).symm
  have hacc := hfits.accepted hwf.init
  rw [← htree] at hacc
  have hwords := hread.words.trans hfits.words
  have hkind := fun {x} => hfits.kind (x := x)
  rw [← htree, hfits.path] at hkind
  rw [treeAfter_concat hkept, ← htree, hfits.path]
  rcases hkept with hdir | hfile
  · have hcall : pathAt m s.off ≠ [slash] ∧ pathAt m s.off ≠ [slash, dot] := by
      constructor
      · intro hc
        have hnil : words slash [slash] = ws ++ [a] := hc ▸ hwords
        exact absurd hnil (by simp [words_sep, words_nil])
      · intro hc
        have hone : words slash [slash, dot] = ws ++ [a] := hc ▸ hwords
        have hdot : words slash [slash, dot] = [] ++ [[dot]] := by decide
        rw [hdot] at hone
        exact hfits.plain.1 (List.singleton_inj.1 (List.append_inj' hone rfl).2.symm)
    rw [memberAt, hh.type, hdir, if_pos rfl, unpackDir, if_pos hcall]
    cases hold : s.fs.tree (place ws ++ [a]) with
    | none =>
      obtain ⟨fs, hfs, hsound, hnew⟩ := RamFs.vfsMkdir_new (modeAt m s.off) hs hread.short hwords hacc
        hroom.node hold
      rw [hfs]
      refine ⟨_, rfl, hsound, ?_⟩
      rw [hnew, hread.mode, hperm, Option.elim_none, Member.entry, if_pos hdir]
    | some x =>
      obtain ⟨mode, rfl⟩ := (hkind hold).1 hdir
      rw [RamFs.vfsMkdir_old hs hread.short hwords hacc (by rw [hold]; exact Option.some_ne_none _)]
      refine ⟨s, rfl, hs, ?_⟩
      rw [Option.elim_some, Member.entry, if_pos hdir]
      exact (update_eq_self_iff.2 hold.symm).symm
  · have htypes : ¬ [e.type] = [53] ∧ ([e.type] = [48] ∨ [e.type] = [0]) := by
      rcases hfile with hf | hf <;> rw [hf] <;> decide
    have hbuf : e.data.length ≤ 2 ^ 36 := hread.size ▸ (sizeAt_lt m s.off).le
    obtain ⟨n, fs₁, fs₂, hopen, hwrite, hsound, hnew⟩ := RamFs.vfsOpen_write (modeAt m s.off) hs
      hread.short hwords hacc hroom.node hroom.file ⟨hroom.heap, hroom.page⟩ hbuf fun x hx => (hkind hx).2 hfile
    refine ⟨{ s with fs := fs₂, files := s.files + 1 }, ?_, hsound, ?_⟩
    · rw [memberAt, hh.type, if_neg htypes.1, if_pos htypes.2, unpackFile, hopen]
      dsimp only
      rw [Reading.bind_fst, Reading.pure_fst, Reading.load_fst, hread.size, hdata, hwrite, Option.map_some]
    · rw [hnew, hread.mode, hperm, Member.entry, if_neg fun hc => hc.not_isFile hfile]

lemma loop_treeAfter (hsize : size ≤ 2 ^ 47) (hoff : s.off ≤ size + tarBlock) (hs : s.fs.Sound)
    (harch : Archive m size s.off es) (htree : s.fs.tree = treeAfter before done)
    (hwf : WellFormed before (done ++ es)) (hroom : ∀ off, (rooms off).Enough) :
    ∃ t, (loop (fun s => liftM (round size rooms s)) s).Runs m size (some t) ∧
      t.fs.tree = treeAfter before (done ++ es) := by
  have hround : (liftM (round size rooms s) : Looping _).Runs m size _ := .lift (round_stays hsize hoff)
  generalize hat : s.off = off at harch hoff
  induction harch generalizing s done with
  | stop h =>
    subst hat
    rw [round_end (not_headerAt_of_stop hsize hoff h)] at hround
    exact ⟨s, .loop_done hround, by rw [List.append_nil, htree]⟩
  | member hh hdata hfit hrest ih =>
    rename_i off e es
    subst hat
    have hsplit : done ++ e :: es = done ++ [e] ++ es := by rw [List.append_assoc]; rfl
    rw [hsplit] at hwf ⊢
    obtain ⟨t, ht, hts, htt⟩ := memberAt_treeAfter hs htree hwf.init hh hdata (hroom s.off)
    have hhead := headerAt_of_header hh hfit
    obtain ⟨hnext, -, hle⟩ := hhead.next hsize hoff
    rw [(reads_of_header hh).size] at hnext
    rw [round_member hhead, ht, Option.elim_some] at hround
    obtain ⟨u, hu, hut⟩ := ih (s := { t with off := nextAt m s.off }) hts htt hwf
      (Runs.lift (round_stays hsize hle)) hnext (hnext ▸ hle)
    exact ⟨u, .loop_step hround hu, hut⟩

end Run

end Initrd

section Unpack

open Initrd

variable {m : ℕ → UInt8} {rooms : ℕ → Room} {fs : RamFs} {b : BootModule} {es : List Member}

lemma BootModule.size_le (b : BootModule) : b.size ≤ 2 ^ 47 := (Nat.sub_le _ _).trans b.mapped

lemma initrdUnpack_treeAfter (rest : List BootModule) (hfs : fs.Sound) (harch : Archive m b.size 0 es) (hwf : WellFormed fs.tree es)
    (hroom : ∀ off, (rooms off).Enough) :
    ∃ files fs', (initrdUnpack (b :: rest) rooms fs).Runs m b.size (some (files, fs')) ∧
      fs'.tree = treeAfter fs.tree es := by
  have hinit : fs.tree = treeAfter fs.tree [] := rfl
  obtain ⟨t, ht, htree⟩ := loop_treeAfter (s := { off := 0, fs }) b.size_le (Nat.zero_le _) hfs harch
    hinit hwf hroom
  exact ⟨t.files, t.fs, .bind ht (.pure _), htree⟩

theorem initrdUnpack_unpacked (hfs : fs.Sound) (m : ℕ → UInt8) (modules : List BootModule)
    (rooms : ℕ → Room) :
    (∃ r, (initrdUnpack modules rooms fs).Runs m (modules.head?.elim 0 BootModule.size) (some r)) ∧
    ∀ b rest es, modules = b :: rest → Archive m b.size 0 es → WellFormed fs.tree es →
      (∀ off, (rooms off).Enough) →
      ∃ files fs', (initrdUnpack modules rooms fs).Runs m b.size (some (files, fs')) ∧
        Unpacked fs.tree es (firstMode fs.tree es) fs'.tree ∧
        ∀ p, ∀ e ∈ (named es p).getLast?, e.IsDir → fs'.tree p = some (.dir (firstMode fs.tree es p)) := by
  constructor
  · cases modules with
    | nil => exact ⟨(0, fs), .pure _⟩
    | cons b rest =>
      obtain ⟨t, ht, -⟩ := loop_runs (m := m) rooms (s := { off := 0, fs }) b.size_le (Nat.zero_le _) hfs
      exact ⟨(t.files, t.fs), .bind ht (.pure _)⟩
  · rintro b rest es rfl harch hwf hroom
    obtain ⟨files, fs', hruns, htree⟩ := initrdUnpack_treeAfter rest hfs harch hwf hroom
    refine ⟨files, fs', hruns, htree ▸ unpacked_treeAfter fs.tree es, fun p e he hdir => ?_⟩
    rw [Option.mem_def] at he
    rw [htree, treeAfter, he]
    exact congrArg some (if_pos hdir)

/-- The headers of an empty file `a`, with the mode `0644` and again with the mode `0600`. -/
def sampleBytes (a : ℕ) : UInt8 :=
  if a % 512 = 0 then 97
  else if a % 512 = 104 then 54
  else if a % 512 = 105 ∨ a % 512 = 106 then if a < 512 then 52 else 48
  else if 100 ≤ a % 512 ∧ a % 512 < 107 ∨ 124 ≤ a % 512 ∧ a % 512 < 135 ∨ a % 512 = 156 then 48
  else if 257 ≤ a % 512 then magic.getD (a % 512 - 257) 0
  else 0

def sampleMember (mode : ℕ) : Member := ⟨[], [97], mode, 48, []⟩

def sampleMembers : List Member := [sampleMember 0x1A4, sampleMember 0x180]

def sampleModule : BootModule := ⟨0, 1024, by decide, by decide⟩

def ampleRoom : Room := ⟨true, true, true, fun _ => true, true⟩

lemma sample_archive : Archive sampleBytes sampleModule.size 0 sampleMembers := by
  have hfields : ∀ off mode, off = 0 ∧ mode = 0x1A4 ∨ off = 512 ∧ mode = 0x180 →
      Header sampleBytes off (sampleMember mode) := by
    rintro off mode (⟨rfl, rfl⟩ | ⟨rfl, rfl⟩)
    · exact ⟨⟨by decide, 99, by decide +kernel⟩, by decide,
        ⟨[48, 48, 48, 48, 54, 52, 52], [0], by decide +kernel, by decide, by decide +kernel, by decide +kernel, by decide⟩,
        ⟨List.replicate 11 48, [0], by decide +kernel, by decide, by decide +kernel, by decide +kernel, by decide⟩,
        by decide +kernel, by decide +kernel, ⟨by decide, 155, by decide +kernel⟩⟩
    · exact ⟨⟨by decide, 99, by decide +kernel⟩, by decide,
        ⟨[48, 48, 48, 48, 54, 48, 48], [0], by decide +kernel, by decide, by decide +kernel, by decide +kernel, by decide⟩,
        ⟨List.replicate 11 48, [0], by decide +kernel, by decide, by decide +kernel, by decide +kernel, by decide⟩,
        by decide +kernel, by decide +kernel, ⟨by decide, 155, by decide +kernel⟩⟩
  refine .member (hfields 0 _ (.inl ⟨rfl, rfl⟩)) rfl (by decide) ?_
  refine .member (hfields 512 _ (.inr ⟨rfl, rfl⟩)) rfl (by decide) ?_
  exact .stop (.inl (by decide))

lemma sample_new : RamFs.tmpfsCreateSb.tree [[97]] = none := by
  refine RamFs.tree_of_none ?_
  rw [← List.nil_append [[97]], RamFs.resolve_concat, RamFs.resolve_nil, Option.bind_some]
  exact RamFs.tmpfsCreateSb_find

lemma sample_wellFormed : WellFormed RamFs.tmpfsCreateSb.tree sampleMembers := by
  have hroot : RamFs.tmpfsCreateSb.tree.IsDir [] :=
    RamFs.isDir_iff.2 ⟨_, RamFs.resolve_nil, RamFs.tmpfsCreateSb_sound.root⟩
  have hfits : ∀ done mode, (∀ d ∈ done, d.IsFile) → Fits RamFs.tmpfsCreateSb.tree done (sampleMember mode) [] [97] := by
    intro done mode hdone
    refine ⟨rfl, by decide, by decide, fun k _ => ?_, fun d hd _ => ?_, fun x hx => ?_⟩
    · rw [List.take_nil]
      exact .inl hroot
    · exact ⟨fun hc => absurd (hdone d hd) hc.not_isFile, fun _ => .inl rfl⟩
    · cases sample_new.symm.trans hx
  intro done e rest hs _
  have hmem : e ∈ sampleMembers := by rw [hs]; simp
  have hdone : ∀ d ∈ done, d.IsFile := fun d hd => by
    have hd : d ∈ sampleMembers := by rw [hs]; simp [hd]
    rcases List.mem_pair.1 hd with rfl | rfl <;> exact .inl rfl
  rcases List.mem_pair.1 hmem with rfl | rfl <;> exact .inr ⟨[], [97], hfits done _ hdone⟩

theorem initrdUnpack_unpacked_sample : ∃ files fs',
    (initrdUnpack [sampleModule] (fun _ => ampleRoom) .tmpfsCreateSb).Runs sampleBytes 1024
      (some (files, fs')) ∧
    Unpacked RamFs.tmpfsCreateSb.tree sampleMembers (firstMode RamFs.tmpfsCreateSb.tree sampleMembers) fs'.tree := by
  obtain ⟨files, fs', hruns, hun, -⟩ := (initrdUnpack_unpacked RamFs.Booted.mount.sound
    sampleBytes [sampleModule] fun _ => ampleRoom).2 sampleModule [] sampleMembers rfl
    sample_archive sample_wellFormed fun _ => ⟨rfl, rfl, rfl, fun _ => rfl⟩
  exact ⟨files, fs', hruns, hun⟩

theorem not_unpacked_lastMode : ∃ files fs', RamFs.tmpfsCreateSb.Booted ∧
    Archive sampleBytes sampleModule.size 0 sampleMembers ∧
    WellFormed RamFs.tmpfsCreateSb.tree sampleMembers ∧ ampleRoom.Enough ∧
    (initrdUnpack [sampleModule] (fun _ => ampleRoom) .tmpfsCreateSb).Runs sampleBytes 1024
      (some (files, fs')) ∧
    ¬ Unpacked RamFs.tmpfsCreateSb.tree sampleMembers (lastMode sampleMembers) fs'.tree := by
  have hroom : ampleRoom.Enough := ⟨rfl, rfl, rfl, fun _ => rfl⟩
  obtain ⟨files, fs', hruns, htree⟩ := initrdUnpack_treeAfter [] RamFs.tmpfsCreateSb_sound
    sample_archive sample_wellFormed fun _ => hroom
  refine ⟨files, fs', .mount, sample_archive, sample_wellFormed, hroom, hruns, fun hun => ?_⟩
  have hnamed : named sampleMembers [[97]] = sampleMembers := by
    simp only [named, List.filter_eq_self]
    intro e he
    rcases List.mem_pair.1 he with rfl | rfl <;> decide
  have hfile := hun.file [[97]] (sampleMember 0x180) (by rw [hnamed]; rfl) (.inl rfl)
  have hmode : firstMode RamFs.tmpfsCreateSb.tree sampleMembers [[97]] = 0x1A4 := by
    rw [firstMode, sample_new, hnamed]
    rfl
  rw [htree, treeAfter, hnamed, hmode, lastMode, hnamed] at hfile
  exact absurd (congrArg (fun o => o.elim 0 Entry.mode) hfile) (by decide)

end Unpack

end MyOS.Fs
