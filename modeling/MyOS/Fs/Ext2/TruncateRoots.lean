import MyOS.Fs.Ext2.TruncateSpec

/-! `ext2_truncate` frees exactly the blocks that are cut off, if it can read its way to them. -/

namespace MyOS.Fs.Ext2

open Library Positional

variable {e : Reading} {apb keep d i n r : ℕ} {c k : Cell} {q q' is : List ℕ} {b : ℕ}

section Positions

lemma position_of_blockPath (ha : AddrPerBlock apb) (hq : q ≠ []) (h : q <+: blockPath apb n) :
    Position apb q := by
  by_cases hn : n < maxBlocks apb
  · have hw := (blockPath_of_lt ha hn).1
    cases q with
    | nil => exact absurd rfl hq
    | cons r is =>
      obtain ⟨js, hjs⟩ := h
      rw [← hjs] at hw
      obtain ⟨hr, hlen, hlt⟩ := hw
      refine ⟨hr, ?_, fun i hi => hlt i (List.mem_append_left _ hi)⟩
      change (is ++ js).length = _ at hlen
      rw [List.length_append] at hlen
      omega
  · rw [(blockPath_bijective ha).2 n (not_lt.1 hn)] at h
    exact absurd (List.prefix_nil.1 h) hq

lemma prefix_blockPath (ha : AddrPerBlock apb) (h : Position apb q) :
    q <+: blockPath apb (fileIndex apb q) := by
  cases q with
  | nil => exact h.elim
  | cons r is =>
    obtain ⟨hr, his⟩ := h
    have hlt := value_lt his ha.pos
    rw [fileIndex, blockPath_eq ha hr (Nat.le_add_right _ _) (Nat.add_lt_add_left hlt _),
      Nat.add_sub_cancel_left]
    exact (List.prefix_cons_inj r).2 (prefix_digits his)

lemma cutOff_iff (ha : AddrPerBlock apb) (h : Position apb q) : CutOff apb keep q ↔ keep ≤ fileIndex apb q := by
  constructor
  · exact fun hc => hc _ (prefix_blockPath ha h)
  · intro hle n hn
    cases q with
    | nil => exact h.elim
    | cons r is =>
      have hlt : n < maxBlocks apb := by
        by_contra hge
        rw [(blockPath_bijective ha).2 n (not_lt.1 hge)] at hn
        simp at hn
      have hidx := (blockPath_of_lt ha hlt).2
      obtain ⟨js, hjs⟩ := hn
      rw [← hjs] at hidx
      calc keep ≤ rootBase apb r + value apb (rootDepth r) is := hle
        _ ≤ rootBase apb r + value apb (rootDepth r) (is ++ js) :=
          Nat.add_le_add_left (prefix_value_le (List.prefix_append is js)) _
        _ = n := hidx

lemma opens_iff {m : Cells} {base p : ℕ} (his : Prefix apb d is) (hne : follow m p is ≠ 0) :
    Opens e apb keep m d base p is ↔ ∀ js i ks, is = js ++ i :: ks →
      e.bread (follow m p js) = true ∧
        (keep ≤ base + value apb d js → e.kmalloc (follow m p js) = true) := by
  induction is generalizing d base p with
  | nil => simp
  | cons i is ih =>
    cases d with
    | zero => exact absurd his not_prefix_zero
    | succ d =>
      obtain ⟨hi, his⟩ := prefix_cons.1 his
      have hp : p ≠ 0 := by
        rintro rfl
        simp at hne
      rw [follow, if_neg hp] at hne
      rw [Opens, ih his hne]
      constructor
      · rintro ⟨hread, hcopy, hrest⟩ js j ks hjs
        cases js with
        | nil => exact ⟨hread, fun hle => hcopy (by simpa using hle)⟩
        | cons j' js =>
          obtain ⟨rfl, hjs'⟩ := List.cons.inj hjs
          rw [follow, if_neg hp, value_cons, ← Nat.add_assoc]
          exact hrest js j ks hjs'
      · intro hall
        obtain ⟨hread, hcopy⟩ := hall [] i is rfl
        refine ⟨hread, fun hle => hcopy (by simpa using hle), fun js j ks hjs => ?_⟩
        have hcons := hall (i :: js) j ks (by rw [hjs]; rfl)
        rwa [follow, if_neg hp, value_cons, ← Nat.add_assoc] at hcons

end Positions

namespace InodeTree

variable (t : InodeTree apb)

def CellOf (q : List ℕ) (k : Cell) : Prop := (∃ r, q = [r] ∧ k = .root r) ∨
  ∃ q' i, q = q' ++ [i] ∧ Position apb q' ∧ blockAt t.cells q' ≠ 0 ∧ k = .ptr (blockAt t.cells q') i

structure Rooted (d : ℕ) (c : Cell) (q : List ℕ) : Prop where
  cell : t.CellOf q c
  follow : ∀ is, follow t.cells (t.cells c) is = blockAt t.cells (q ++ is)
  position : ∀ is, Prefix apb d is → Position apb (q ++ is)

variable {t}

lemma CellOf.eq (h : t.CellOf q k) (h' : t.CellOf q' k) : q = q' := by
  obtain ⟨r, rfl, rfl⟩ | ⟨p, i, rfl, hp, hne, rfl⟩ := h
  · obtain ⟨r', rfl, hr⟩ | ⟨p', i', rfl, -, -, hr⟩ := h'
    · rw [Cell.root.inj hr]
    · simp at hr
  · obtain ⟨r', rfl, hr⟩ | ⟨p', i', rfl, hp', -, hr⟩ := h'
    · simp at hr
    · obtain ⟨hb, rfl⟩ := Cell.ptr.inj hr
      rw [t.sole p p' hp hp' hne hb]

lemma rooted (hr : r ≤ tindBlock) : t.Rooted (rootDepth r) (.root r) [r] where
  cell := .inl ⟨r, rfl, rfl⟩
  follow _ := rfl
  position _ his := ⟨hr, his⟩

namespace Rooted

lemma self (h : t.Rooted d c q) : blockAt t.cells q = t.cells c := by
  have hf := h.follow []
  rw [List.append_nil] at hf
  exact hf.symm

lemma child (h : t.Rooted (d + 1) c q) (hc : t.cells c ≠ 0) (hi : i < apb) :
    t.Rooted d (.ptr (t.cells c) i) (q ++ [i]) where
  cell := by
    refine .inr ⟨q, i, rfl, ?_, ?_, ?_⟩
    · simpa using h.position [] prefix_nil
    · rwa [h.self]
    · rw [h.self]
  follow is := by
    rw [List.append_assoc, List.singleton_append, ← h.follow (i :: is), Ext2.follow, if_neg hc]
  position is his := by
    rw [List.append_assoc, List.singleton_append]
    exact h.position _ (prefix_cons.2 ⟨hi, his⟩)

lemma below (h : t.Rooted d c q) (hk : k ∈ below apb t.cells d c) : ∃ q', q <+: q' ∧ t.CellOf q' k := by
  induction d generalizing c q with
  | zero =>
    obtain rfl : k = c := hk
    exact ⟨q, List.prefix_refl q, h.cell⟩
  | succ d ih =>
    obtain rfl | ⟨hc, i, hi, hk⟩ := hk
    · exact ⟨q, List.prefix_refl q, h.cell⟩
    · obtain ⟨q', hq, hcell⟩ := ih (h.child hc hi) hk
      exact ⟨q', (List.prefix_append q [i]).trans hq, hcell⟩

lemma disjoint {d' : ℕ} {c' : Cell} (h : t.Rooted d c q) (h' : t.Rooted d' c' q')
    (hq : ∀ p, ¬ (q <+: p ∧ q' <+: p)) : Disjoint (Ext2.below apb t.cells d c) (Ext2.below apb t.cells d' c') := by
  refine Set.disjoint_left.2 fun k hk hk' => ?_
  obtain ⟨p, hp, hcell⟩ := h.below hk
  obtain ⟨p', hp', hcell'⟩ := h'.below hk'
  exact hq p ⟨hp, hcell.eq hcell' ▸ hp'⟩

lemma isTree (h : t.Rooted d c q) : IsTree apb t.cells d c := by
  induction d generalizing c q with
  | zero => trivial
  | succ d ih =>
    refine fun hc => ⟨fun i hi => ⟨ih (h.child hc hi), fun hk => ?_⟩, fun i hi j hj hij => ?_⟩
    · obtain ⟨q', hq, hcell⟩ := (h.child hc hi).below hk
      rw [hcell.eq h.cell] at hq
      have hlen := hq.length_le
      simp at hlen
    · refine (h.child hc hi).disjoint (h.child hc hj) fun p ⟨hp, hp'⟩ => hij ?_
      have heq := (List.prefix_of_prefix_length_le hp hp' (by simp)).eq_of_length (by simp)
      simpa using heq

lemma sole (h : t.Rooted d c q) : Sole apb t.cells d (t.cells c) := by
  intro is js his hjs hne heq
  rw [h.follow, h.follow] at heq
  rw [h.follow] at hne
  exact List.append_cancel_left (t.sole _ _ (h.position is his) (h.position js hjs) hne heq)

end Rooted

lemma mem_cut (ha : AddrPerBlock apb) : b ∈ t.dataBlocks keep ∨ b ∈ t.indirectBlocks keep ↔
    b ≠ 0 ∧ ∃ q, Position apb q ∧ CutOff apb keep q ∧ blockAt t.cells q = b := by
  constructor
  · rintro (⟨hb, n, hn, rfl⟩ | ⟨hb, q, n, hq, hpre, -, hcut, rfl⟩)
    · have hlt : n < maxBlocks apb := by
        by_contra hge
        rw [(blockPath_bijective ha).2 n (not_lt.1 hge)] at hb
        exact hb rfl
      have hne : blockPath apb n ≠ [] := by
        intro hnil
        rw [hnil] at hb
        exact hb rfl
      have hpos := position_of_blockPath ha hne (List.prefix_refl _)
      refine ⟨hb, _, hpos, (cutOff_iff ha hpos).2 ?_, rfl⟩
      rwa [(blockPath_of_lt ha hlt).2]
    · exact ⟨hb, q, position_of_blockPath ha hq hpre, hcut, rfl⟩
  · rintro ⟨hb, q, hq, hcut, rfl⟩
    have hpre := prefix_blockPath ha hq
    by_cases heq : q = blockPath apb (fileIndex apb q)
    · exact .inl ⟨hb, _, hcut _ hpre, by rw [← heq]⟩
    · refine .inr ⟨hb, q, _, ?_, hpre, heq, hcut, rfl⟩
      rintro rfl
      exact hq

section Roots

lemma truncRoots_eq : truncRoots apb = (List.range (tindBlock + 1)).map fun r => (r, rootDepth r, rootBase apb r) :=
  rfl

lemma truncAll_eq (m : Cells) : truncAll e apb keep m = runAll
    (fun r => truncCell e apb keep (rootDepth r) (rootBase apb r) (.root r)) (List.range (tindBlock + 1)) m := by
  unfold truncAll
  rw [truncRoots_eq]
  exact List.foldl_map

lemma run (ha : 0 < apb) : (truncAll e apb keep t.cells).2 = (List.range (tindBlock + 1)).flatMap (fun r =>
      (truncCell e apb keep (rootDepth r) (rootBase apb r) (.root r) t.cells).2) ∧
    ∀ r ≤ tindBlock, ∀ k ∈ below apb t.cells (rootDepth r) (.root r), (truncAll e apb keep t.cells).1 k =
      (truncCell e apb keep (rootDepth r) (rootBase apb r) (.root r) t.cells).1 k := by
  have hle : ∀ r ∈ List.range (tindBlock + 1), r ≤ tindBlock := fun r hr => Nat.le_of_lt_succ (List.mem_range.1 hr)
  have hdisj : ∀ r ∈ List.range (tindBlock + 1), ∀ r' ∈ List.range (tindBlock + 1), r ≠ r' →
      Disjoint (below apb t.cells (rootDepth r) (.root r)) (below apb t.cells (rootDepth r') (.root r')) := by
    intro r hr r' hr' hne
    refine (rooted (hle r hr)).disjoint (rooted (hle r' hr')) fun p ⟨hp, hp'⟩ => hne ?_
    exact (List.cons.inj ((List.prefix_of_prefix_length_le hp hp' le_rfl).eq_of_length rfl)).1
  obtain ⟨hreport, hinside, -⟩ := runAll_local (F := fun r => below apb t.cells (rootDepth r) (.root r))
    (f := fun r => truncCell e apb keep (rootDepth r) (rootBase apb r) (.root r)) List.nodup_range
    (fun r hr => truncCell_local ha (rooted (hle r hr)).isTree) hdisj
  rw [truncAll_eq]
  exact ⟨hreport, fun r hr => hinside r (List.mem_range.2 (Nat.lt_succ_of_le hr))⟩

def Open (t : InodeTree apb) (e : Reading) (keep : ℕ) : List ℕ → Prop
  | [] => False
  | r :: is => Opens e apb keep t.cells (rootDepth r) (rootBase apb r) (t.cells (.root r)) is

lemma mem_truncAll (ha : AddrPerBlock apb) : b ∈ (truncAll e apb keep t.cells).2 ↔
    b ≠ 0 ∧ ∃ q, Position apb q ∧ CutOff apb keep q ∧ blockAt t.cells q = b ∧ t.Open e keep q ∧ e.Frees b := by
  rw [(run ha.pos).1, List.mem_flatMap]
  constructor
  · rintro ⟨r, hr, hb⟩
    have hr := Nat.le_of_lt_succ (List.mem_range.1 hr)
    obtain ⟨is, his, hf, hb, hle, hop⟩ := (mem_truncTree ha.pos (rooted hr).isTree).1 hb
    have hpos : Position apb (r :: is) := ⟨hr, his⟩
    exact ⟨hb, r :: is, hpos, (cutOff_iff ha hpos).2 hle, hf, hop⟩
  · rintro ⟨hb, q, hq, hcut, hf, hop⟩
    cases q with
    | nil => exact hq.elim
    | cons r is =>
      have hle := (cutOff_iff ha hq).1 hcut
      obtain ⟨hr, his⟩ := hq
      refine ⟨r, List.mem_range.2 (Nat.lt_succ_of_le hr), ?_⟩
      exact (mem_truncTree ha.pos (rooted hr).isTree).2 ⟨is, his, hf, hb, hle, hop⟩

lemma nodup_truncAll (ha : 0 < apb) : (truncAll e apb keep t.cells).2.Nodup := by
  rw [(run ha).1]
  refine List.nodup_flatMap.2 ⟨fun r hr => ?_, ?_⟩
  · have hroot := rooted (t := t) (Nat.le_of_lt_succ (List.mem_range.1 hr))
    exact nodup_truncTree ha hroot.isTree hroot.sole
  · refine List.nodup_range.imp_of_mem fun {r r'} hr hr' hne b hb hb' => hne ?_
    have hr := Nat.le_of_lt_succ (List.mem_range.1 hr)
    have hr' := Nat.le_of_lt_succ (List.mem_range.1 hr')
    obtain ⟨is, his, hf, hb, -⟩ := (mem_truncTree ha (rooted hr).isTree).1 hb
    obtain ⟨is', his', hf', -⟩ := (mem_truncTree ha (rooted hr').isTree).1 hb'
    have hpos : Position apb (r :: is) := ⟨hr, his⟩
    have hpos' : Position apb (r' :: is') := ⟨hr', his'⟩
    have heq := t.sole (r :: is) (r' :: is') hpos hpos' (hf.trans_ne hb) (hf.trans hf'.symm)
    exact (List.cons.inj heq).1

lemma kept_truncAll (ha : AddrPerBlock apb) (hn : n < keep) :
    blockAt (truncAll e apb keep t.cells).1 (blockPath apb n) = blockAt t.cells (blockPath apb n) := by
  by_cases hlt : n < maxBlocks apb
  · obtain ⟨hw, hidx⟩ := blockPath_of_lt ha hlt
    cases hq : blockPath apb n with
    | nil => rfl
    | cons r is =>
      rw [hq] at hw hidx
      obtain ⟨hr, hlen, his⟩ := hw
      refine follow_truncCell (e := e) ha.pos (rooted hr).isTree ((run ha.pos).2 r hr) ⟨hlen.le, his⟩ hlen ?_
      rw [fileIndex] at hidx
      omega
  · rw [(blockPath_bijective ha).2 n (not_lt.1 hlt)]
    rfl

lemma open_iff (ha : AddrPerBlock apb) (hq : Position apb q) (hne : blockAt t.cells q ≠ 0) :
    t.Open e keep q ↔ ∀ q', q' ≠ [] → q' <+: q → q' ≠ q → e.bread (blockAt t.cells q') = true ∧
      (CutOff apb keep q' → e.kmalloc (blockAt t.cells q') = true) := by
  cases q with
  | nil => exact hq.elim
  | cons r is =>
    obtain ⟨hr, his⟩ := hq
    rw [Open, opens_iff his hne]
    have hpos : ∀ js, js <+: is → Position apb (r :: js) := fun js hjs =>
      ⟨hr, hjs.length_le.trans his.1, fun i hi => his.2 i (hjs.subset hi)⟩
    constructor
    · intro hall q' hq' hpre hne'
      cases q' with
      | nil => exact absurd rfl hq'
      | cons r' js =>
        obtain ⟨rfl, hjs⟩ := List.cons_prefix_cons.1 hpre
        obtain ⟨ks, rfl⟩ := hjs
        cases ks with
        | nil => simp at hne'
        | cons i ks =>
          obtain ⟨hread, hcopy⟩ := hall js i ks rfl
          exact ⟨hread, fun hcut => hcopy ((cutOff_iff ha (hpos js (List.prefix_append js _))).1 hcut)⟩
    · rintro hall js i ks rfl
      obtain ⟨hread, hcopy⟩ := hall (r :: js) (by simp) ((List.prefix_cons_inj r).2 (List.prefix_append js _))
        (by simp)
      exact ⟨hread, fun hle => hcopy ((cutOff_iff ha (hpos js (List.prefix_append js _))).2 hle)⟩

theorem truncated_iff_readable (ha : AddrPerBlock apb) (t : InodeTree apb) (e : Reading) (keep : ℕ) :
    t.Truncated keep (truncAll e apb keep t.cells) ↔ t.Readable e keep := by
  constructor
  · intro h q hq hne hcut
    have hmem := (h.freed (blockAt t.cells q)).2 ((mem_cut ha).2 ⟨hne, q, hq, hcut, rfl⟩)
    obtain ⟨-, q', hq', -, heq, hop, hfree⟩ := (mem_truncAll ha).1 hmem
    obtain rfl := t.sole q q' hq hq' hne heq.symm
    exact ⟨hfree, (open_iff ha hq hne).1 hop⟩
  · refine fun h => ⟨nodup_truncAll ha.pos, fun b => ?_, fun n hn => kept_truncAll ha hn⟩
    rw [mem_truncAll ha, mem_cut ha]
    refine and_congr_right fun hb => exists_congr fun q => and_congr_right fun hq => and_congr_right fun hcut => ?_
    refine ⟨And.left, fun heq => ?_⟩
    subst heq
    obtain ⟨hfree, hway⟩ := h q hq hb hcut
    exact ⟨rfl, (open_iff ha hq hb).2 hway, hfree⟩

end Roots

end InodeTree

section OneIndirect

variable {q : List ℕ}

def oneIndirect : Cells
  | .root r => if r = indBlock then 5 else 0
  | .ptr b i => if b = 5 ∧ i = 0 then 6 else 0

lemma blockAt_oneIndirect (h : blockAt oneIndirect q ≠ 0) :
    q = [indBlock] ∧ blockAt oneIndirect q = 5 ∨ q = [indBlock, 0] ∧ blockAt oneIndirect q = 6 := by
  cases q with
  | nil => exact absurd rfl h
  | cons r is =>
    by_cases hr : r = indBlock
    · subst hr
      cases is with
      | nil => exact .inl ⟨rfl, rfl⟩
      | cons i is =>
        by_cases hi : i = 0
        · subst hi
          cases is with
          | nil => exact .inr ⟨rfl, rfl⟩
          | cons j is => simp [blockAt, oneIndirect, follow] at h
        · simp [blockAt, oneIndirect, follow, hi] at h
    · simp [blockAt, oneIndirect, hr] at h

def oneIndirectTree : InodeTree 256 where
  cells := oneIndirect
  sole q q' _ _ hne heq := by
    have hne' := heq ▸ hne
    obtain ⟨rfl, h⟩ | ⟨rfl, h⟩ := blockAt_oneIndirect hne <;>
      obtain ⟨rfl, h'⟩ | ⟨rfl, h'⟩ := blockAt_oneIndirect hne'
    all_goals first | rfl | omega

def smallDisk (kmalloc : ℕ → Bool) : Reading where
  bread _ := true
  kmalloc := kmalloc
  bitmap _ := some true
  firstDataBlock := 1
  blocksCount := 8

theorem truncated_iff_readable_oneIndirect :
    oneIndirectTree.Truncated 0 (truncAll (smallDisk fun _ => true) 256 0 oneIndirect) ↔
      oneIndirectTree.Readable (smallDisk fun _ => true) 0 :=
  oneIndirectTree.truncated_iff_readable (.inl rfl) _ 0

theorem not_truncated_oneIndirect : ¬ ∀ (t : InodeTree 256) (e : Reading) (keep : ℕ),
    t.Truncated keep (truncAll e 256 keep t.cells) := by
  intro h
  have hfreed := (h oneIndirectTree (smallDisk fun _ => false) 0).freed 6
  have hdata : 6 ∈ oneIndirectTree.dataBlocks 0 := ⟨by decide, 12, by decide, by decide⟩
  have hmem := hfreed.2 (.inl hdata)
  revert hmem
  decide

end OneIndirect

end MyOS.Fs.Ext2
