import MyOS.Fs.TmpfsFile

/-! A file on tmpfs is an array of bytes, as long as no write stores nothing behind the end and no
truncation rounds its size beyond 64 bits. -/

namespace MyOS.Fs

open Library Function

namespace TmpfsNode

variable {n n' : TmpfsNode} {i k f idx done off size need : ℕ} {heap : Bool} {room : ℕ → Bool} {buf l : List UInt8}

def byte (n : TmpfsNode) (pos : ℕ) : UInt8 :=
  match n.pages (pos / pageSize) with
  | some f => n.mem f (pos % pageSize)
  | none => 0

structure Ledger (n : TmpfsNode) : Prop where
  range : ∀ i f, n.pages i = some f → i < n.cap
  live_iff : ∀ f, n.live f = true ↔ ∃ i, n.pages i = some f
  once : ∀ i j f, n.pages i = some f → n.pages j = some f → i = j
  fresh : ∀ f, n.live f = true → f < n.next

structure Goes (n n' : TmpfsNode) : Prop where
  ledger : n'.Ledger
  size : n'.size = n.size
  cap : n'.cap = n.cap

lemma byte_some {pos : ℕ} (h : n.pages (pos / pageSize) = some f) : n.byte pos = n.mem f (pos % pageSize) := by
  rw [byte, h]

lemma byte_none {pos : ℕ} (h : n.pages (pos / pageSize) = none) : n.byte pos = 0 := by
  rw [byte, h]

lemma byte_eq {pos pos' : ℕ} (hp : n'.pages (pos' / pageSize) = n.pages (pos / pageSize))
    (hm : ∀ f, n.pages (pos / pageSize) = some f → n'.mem f (pos' % pageSize) = n.mem f (pos % pageSize)) :
    n'.byte pos' = n.byte pos := by
  cases h : n.pages (pos / pageSize) with
  | none => rw [byte_none h, byte_none (hp.trans h)]
  | some f => rw [byte_some h, byte_some (hp.trans h), hm f h]

structure Frees (i k : ℕ) (n n' : TmpfsNode) : Prop extends Goes n n' where
  mem : n'.mem = n.mem
  pages : ∀ j, n'.pages j = if i ≤ j ∧ j < i + k then none else n.pages j

lemma release_pages {j g : ℕ} : (n.release i f).pages j = some g ↔ j ≠ i ∧ n.pages j = some g := by
  show update n.pages i none j = some g ↔ _
  by_cases hj : j = i
  · simp [hj]
  · simp [hj]

lemma release_live {g : ℕ} : (n.release i f).live g = true ↔ g ≠ f ∧ n.live g = true := by
  show update n.live f false g = true ↔ _
  by_cases hg : g = f
  · simp [hg]
  · simp [hg]

lemma Ledger.release (h : n.Ledger) (hf : n.pages i = some f) : (n.release i f).Ledger := by
  refine ⟨fun j g hg => h.range j g (release_pages.1 hg).2, fun g => ?_,
    fun j j' g hg hg' => h.once j j' g (release_pages.1 hg).2 (release_pages.1 hg').2,
    fun g hg => h.fresh g (release_live.1 hg).2⟩
  rw [release_live, h.live_iff]
  constructor
  · rintro ⟨hne, j, hj⟩
    refine ⟨j, release_pages.2 ⟨?_, hj⟩⟩
    rintro rfl
    rw [hf] at hj
    exact hne (Option.some.inj hj).symm
  · rintro ⟨j, hj⟩
    obtain ⟨hne, hold⟩ := release_pages.1 hj
    refine ⟨?_, j, hold⟩
    rintro rfl
    exact hne (h.once j i g hold hf)

lemma freePagesFrom_frees (h : n.Ledger) (k i : ℕ) : ∃ n', freePagesFrom k i n = some n' ∧ Frees i k n n' := by
  induction k generalizing i n with
  | zero =>
    refine ⟨n, rfl, ⟨h, rfl, rfl⟩, rfl, fun j => ?_⟩
    rw [if_neg (by omega)]
  | succ k ih =>
    cases hf : n.pages i with
    | none =>
      obtain ⟨n', he, hn⟩ := ih h (i + 1)
      refine ⟨n', by rw [freePagesFrom, hf]; exact he, hn.toGoes, hn.mem, fun j => ?_⟩
      rw [hn.pages]
      by_cases hj : j = i
      · rw [hj, if_neg (by omega), if_pos (by omega), hf]
      · exact if_congr (by omega) rfl rfl
    | some f =>
      obtain ⟨n', he, hn⟩ := ih (h.release hf) (i + 1)
      have hlive : n.live f = true := (h.live_iff f).2 ⟨i, hf⟩
      refine ⟨n', ?_, ⟨hn.ledger, hn.size, hn.cap⟩, hn.mem, fun j => ?_⟩
      · rw [freePagesFrom, hf]
        dsimp only
        rw [if_pos hlive]
        exact he
      · have hother : j ≠ i → (n.release i f).pages j = n.pages j := fun hj => update_of_ne hj ..
        rw [hn.pages]
        by_cases hj : j = i
        · rw [hj, if_neg (by omega), if_pos (by omega)]
          exact update_self ..
        · rw [hother hj]
          exact if_congr (by omega) rfl rfl

lemma le_grow (need k cap : ℕ) (h : 0 < cap) (hk : need ≤ cap + k) : need ≤ grow need k cap ∧ cap ≤ grow need k cap := by
  induction k generalizing cap with
  | zero => exact ⟨hk, le_rfl⟩
  | succ k ih =>
    rw [grow]
    split_ifs with hlt
    · obtain ⟨h₁, h₂⟩ := ih (cap * 2) (by omega) (by omega)
      exact ⟨h₁, by omega⟩
    · exact ⟨by omega, le_rfl⟩

lemma ensureCap_spec (h : n.Ledger) (hn : n.ensureCap need heap = some n') :
    n'.Ledger ∧ n'.size = n.size ∧ need ≤ n'.cap ∧ n'.pages = n.pages ∧ n'.mem = n.mem := by
  rw [ensureCap] at hn
  by_cases hcap : need ≤ n.cap
  · rw [if_pos hcap] at hn
    cases hn
    exact ⟨h, rfl, hcap, rfl, rfl⟩
  · rw [if_neg hcap] at hn
    cases heap with
    | false => cases hn
    | true =>
      rw [if_pos rfl] at hn
      cases hn
      have hpages : (fun i => if i < n.cap then n.pages i else none) = n.pages := by
        funext i
        split_ifs with hi
        · rfl
        · cases hp : n.pages i with
          | none => rfl
          | some f => exact absurd (h.range i f hp) hi
      obtain ⟨hneed, hle⟩ := le_grow need need (if n.cap = 0 then 4 else n.cap)
        (by split_ifs <;> omega) (by omega)
      have hcaps : n.cap ≤ if n.cap = 0 then 4 else n.cap := by split_ifs <;> omega
      refine ⟨⟨fun i f hf => ?_, ?_, ?_, h.fresh⟩, rfl, hneed, hpages, rfl⟩
      · rw [hpages] at hf
        exact (h.range i f hf).trans_le (hcaps.trans hle)
      · rw [hpages]
        exact h.live_iff
      · rw [hpages]
        exact h.once

lemma ensureCap_eq_none : n.ensureCap need heap = none ↔ ¬ need ≤ n.cap ∧ heap = false := by
  rw [ensureCap]
  split_ifs with hcap hheap
  · simp [hcap]
  · simp [hheap]
  · simpa [hheap] using hcap

lemma pageAt_spec (h : n.Ledger) (hidx : idx < n.cap) {b : Bool} (hn : n.pageAt b idx = some (f, n')) :
    Goes n n' ∧ n'.pages idx = some f ∧ ∀ pos, n'.byte pos = n.byte pos := by
  cases hp : n.pages idx with
  | some g =>
    rw [pageAt, hp] at hn
    cases hn
    exact ⟨⟨h, rfl, rfl⟩, hp, fun _ => rfl⟩
  | none =>
    rw [pageAt, hp] at hn
    dsimp only at hn
    split_ifs at hn
    cases hn
    have hnew : ∀ j, n.pages j ≠ some n.next := fun j hj => (h.fresh _ ((h.live_iff _).2 ⟨j, hj⟩)).false
    have hpages : ∀ j g, update n.pages idx (some n.next) j = some g →
        j = idx ∧ g = n.next ∨ n.pages j = some g := by
      intro j g hg
      by_cases hj : j = idx
      · rw [hj, update_self] at hg
        exact .inl ⟨hj, (Option.some.inj hg).symm⟩
      · rw [update_of_ne hj] at hg
        exact .inr hg
    refine ⟨⟨⟨fun j g hg => ?_, fun g => ?_, fun j j' g hg hg' => ?_, fun g hg => ?_⟩, rfl, rfl⟩,
      update_self .., fun pos => ?_⟩
    · rcases hpages j g hg with ⟨rfl, -⟩ | hg
      · exact hidx
      · exact h.range j g hg
    · by_cases hg : g = n.next
      · subst hg
        refine iff_of_true (update_self ..) ⟨idx, update_self ..⟩
      · show update n.live n.next true g = true ↔ _
        rw [update_of_ne hg, h.live_iff]
        constructor
        · rintro ⟨j, hj⟩
          have hji : j ≠ idx := by
            rintro rfl
            rw [hp] at hj
            cases hj
          exact ⟨j, (update_of_ne hji ..).trans hj⟩
        · rintro ⟨j, hj⟩
          exact ⟨j, (hpages j g hj).resolve_left fun hc => hg hc.2⟩
    · rcases hpages j g hg with ⟨rfl, rfl⟩ | hj <;> rcases hpages j' _ hg' with ⟨rfl, hg''⟩ | hj'
      · rfl
      · exact absurd hj' (hnew j')
      · exact absurd (hg'' ▸ hj) (hnew j)
      · exact h.once j j' g hj hj'
    · show g < n.next + 1
      by_cases hgn : g = n.next
      · omega
      · have := h.fresh g ((update_of_ne hgn ..).symm.trans hg)
        omega
    · by_cases hj : pos / pageSize = idx
      · have hzero : n.byte pos = 0 := byte_none (hj ▸ hp)
        have hsome : update n.pages idx (some n.next) (pos / pageSize) = some n.next := by
          rw [hj, update_self]
        rw [hzero, byte_some hsome]
        show update n.mem n.next (fun _ => 0) n.next _ = 0
        rw [update_self]
      · refine byte_eq (update_of_ne hj ..) fun g hg => ?_
        have hgn : g ≠ n.next := fun he => hnew _ (he ▸ hg)
        show update n.mem n.next (fun _ => 0) g _ = n.mem g _
        rw [update_of_ne hgn]

lemma pageAt_eq_none {b : Bool} : n.pageAt b idx = none ↔ n.pages idx = none ∧ b = false := by
  rw [pageAt]
  cases hp : n.pages idx with
  | some g => simp
  | none => cases b <;> simp

lemma store_spec (h : n.Ledger) (hf : n.pages idx = some f) {a : ℕ} (hl : a + l.length ≤ pageSize) :
    Goes n (n.store f a l) ∧ (n.store f a l).byte = Bytes.store n.byte (idx * pageSize + a) l := by
  refine ⟨⟨⟨h.range, h.live_iff, h.once, h.fresh⟩, rfl, rfl⟩, ?_⟩
  funext pos
  have hpos := Nat.div_add_mod' pos pageSize
  by_cases hj : pos / pageSize = idx
  · have hsome : n.pages (pos / pageSize) = some f := hj ▸ hf
    have hnew : (n.store f a l).byte pos = Bytes.store (n.mem f) a l (pos % pageSize) := by
      rw [byte_some (n := n.store f a l) hsome]
      show update n.mem f _ f _ = _
      rw [update_self]
    rw [hj] at hpos
    have hsub : pos - (idx * pageSize + a) = pos % pageSize - a := by omega
    rw [hnew, Bytes.store, Bytes.store, hsub, byte_some hsome]
    exact if_congr (by omega) rfl rfl
  · rw [Bytes.store_of_not_mem fun hc => hj ?_]
    · refine byte_eq rfl fun g hg => ?_
      have hgf : g ≠ f := fun he => hj (h.once _ _ f (he ▸ hg) hf)
      show update n.mem f _ g _ = _
      rw [update_of_ne hgf]
    · refine Nat.div_eq_of_lt_le (by omega) ?_
      rw [Nat.succ_mul]
      omega

structure Writes (room : ℕ → Bool) (buf : List UInt8) (off done : ℕ) (n : TmpfsNode) (d : ℕ) (n' : TmpfsNode) :
    Prop extends Goes n n' where
  le : done ≤ d ∧ d ≤ buf.length
  byte : n'.byte = Bytes.store n.byte (off + done) ((buf.drop done).take (d - done))
  none_iff : d = done ↔ done = buf.length ∨
    n.pages ((off + done) / pageSize) = none ∧ room ((off + done) / pageSize) = false

lemma Writes.stop (h : n.Ledger) (hdone : done ≤ buf.length) (hnone : done = buf.length ∨
    n.pages ((off + done) / pageSize) = none ∧ room ((off + done) / pageSize) = false) :
    Writes room buf off done n done n := by
  refine ⟨⟨h, rfl, rfl⟩, ⟨le_rfl, hdone⟩, ?_, iff_of_true rfl hnone⟩
  rw [Nat.sub_self, List.take_zero, Bytes.store_nil]

lemma writeLoop_writes (room : ℕ → Bool) (k : ℕ) (h : n.Ledger) (hcap : off + buf.length ≤ n.cap * pageSize) (hdone : done ≤ buf.length)
    (hk : buf.length ≤ done + k) :
    ∃ d n', writeLoop room buf off k done n = some (d, n') ∧ Writes room buf off done n d n' := by
  induction k generalizing done n with
  | zero =>
    exact ⟨done, n, rfl, .stop h hdone (.inl (by omega))⟩
  | succ k ih =>
    by_cases hlt : done < buf.length
    · have hmod : (off + done) % pageSize < pageSize := Nat.mod_lt _ (by decide)
      have hpos := Nat.div_add_mod' (off + done) pageSize
      have hidx : (off + done) / pageSize < n.cap := Nat.div_lt_of_lt_mul (by rw [Nat.mul_comm]; omega)
      rw [writeLoop, if_pos hlt]
      dsimp only
      rw [if_neg (by omega)]
      cases hp : n.pageAt (room ((off + done) / pageSize)) ((off + done) / pageSize) with
      | none =>
        exact ⟨done, n, rfl, .stop h hdone (.inr (pageAt_eq_none.1 hp))⟩
      | some r =>
        obtain ⟨f, n₁⟩ := r
        obtain ⟨hg₁, hf, hbyte₁⟩ := pageAt_spec h hidx hp
        have hpage : ¬ (n.pages ((off + done) / pageSize) = none ∧ room ((off + done) / pageSize) = false) := by
          rw [← pageAt_eq_none, hp]
          nofun
        set chunk := min (buf.length - done) (pageSize - (off + done) % pageSize) with hchunk
        have hclen : ((buf.drop done).take chunk).length = chunk := by
          rw [List.length_take, List.length_drop]
          omega
        obtain ⟨hg₂, hbyte₂⟩ := store_spec (l := (buf.drop done).take chunk) hg₁.ledger hf
          (a := (off + done) % pageSize) (by omega)
        rw [hpos, funext hbyte₁] at hbyte₂
        obtain ⟨d, n', he, hw⟩ := ih hg₂.ledger (by rw [hg₂.cap, hg₁.cap]; exact hcap)
          (show done + chunk ≤ buf.length by omega) (by omega)
        refine ⟨d, n', he, ⟨hw.ledger, hw.size.trans (hg₂.size.trans hg₁.size), hw.cap.trans (hg₂.cap.trans hg₁.cap)⟩,
          ⟨by have := hw.le; omega, hw.le.2⟩, ?_, iff_of_false (by have := hw.le; omega) ?_⟩
        · have hsplit : d - done = chunk + (d - (done + chunk)) := by
            have := hw.le
            omega
          have hstore := Bytes.store_append (m := n.byte) (a := off + done) ((buf.drop done).take chunk)
            ((buf.drop (done + chunk)).take (d - (done + chunk)))
          rw [hclen] at hstore
          rw [hw.byte, hbyte₂, ← Nat.add_assoc, hstore, hsplit, List.take_add, List.drop_drop]
        · exact not_or.2 ⟨by omega, hpage⟩
    · rw [writeLoop, if_neg hlt]
      exact ⟨done, n, rfl, .stop h hdone (.inl (by omega))⟩

lemma readLoop_eq (h : n.Ledger) {len : ℕ} (hdone : done ≤ len) (hk : len ≤ done + k) :
    n.readLoop len off k done = Bytes.load n.byte (off + done) (len - done) := by
  induction k generalizing done with
  | zero =>
    have hzero : len - done = 0 := by omega
    rw [hzero]
    rfl
  | succ k ih =>
    rw [readLoop]
    by_cases hlt : done < len
    · rw [if_pos hlt]
      have hmod : (off + done) % pageSize < pageSize := Nat.mod_lt _ (by decide)
      have hpos := Nat.div_add_mod' (off + done) pageSize
      set chunk := min (len - done) (pageSize - (off + done) % pageSize) with hchunk
      have hin : ∀ i < chunk, (off + done + i) / pageSize = (off + done) / pageSize ∧
          (off + done + i) % pageSize = (off + done) % pageSize + i := by
        intro i hi
        have hdiv : (off + done + i) / pageSize = (off + done) / pageSize := by
          refine Nat.div_eq_of_lt_le (by omega) ?_
          rw [Nat.succ_mul]
          omega
        have hpos' := Nat.div_add_mod' (off + done + i) pageSize
        rw [hdiv] at hpos'
        exact ⟨hdiv, by omega⟩
      have hpages : (if (off + done) / pageSize < n.cap then n.pages ((off + done) / pageSize) else none) =
          n.pages ((off + done) / pageSize) := by
        split_ifs with hc
        · rfl
        · cases hp : n.pages ((off + done) / pageSize) with
          | none => rfl
          | some f => exact absurd (h.range _ f hp) hc
      have hsplit : Bytes.load n.byte (off + done) (len - done) =
          Bytes.load n.byte (off + done) chunk ++ n.readLoop len off k (done + chunk) := by
        rw [ih (by omega) (by omega), ← Nat.add_assoc, Bytes.load_append]
        exact congrArg _ (by omega)
      rw [hsplit]
      dsimp only
      rw [hpages]
      refine congrArg (fun bytes => bytes ++ n.readLoop len off k (done + chunk)) ?_
      cases hp : n.pages ((off + done) / pageSize) with
      | none =>
        refine (Bytes.load_eq_replicate fun i hi => ?_).symm
        exact byte_none ((hin i hi).1 ▸ hp)
      | some f =>
        refine List.map_congr_left fun i hi => ?_
        obtain ⟨hd, hm⟩ := hin i (List.mem_range.1 hi)
        rw [byte_some (hd ▸ hp), hm]
    · have hzero : len - done = 0 := by omega
      rw [if_neg hlt, hzero]
      rfl

lemma tmpfsRead_eq (h : n.Ledger) (len off : ℕ) :
    n.tmpfsRead len off = Bytes.load n.byte off (min len (n.size - off)) := by
  rw [tmpfsRead]
  split_ifs with hoff
  · have hzero : min len (n.size - off) = 0 := by omega
    rw [hzero]
    rfl
  · exact readLoop_eq h (Nat.zero_le _) (by omega)

/-- The write is allowed, but there is nothing to store or no page for its first byte. -/
def StoresNothing (n : TmpfsNode) (heap : Bool) (room : ℕ → Bool) (buf : List UInt8) (off : ℕ) : Prop :=
  off + buf.length ≤ 2 ^ 36 ∧ ((off + buf.length + pageSize - 1) / pageSize ≤ n.cap ∨ heap = true) ∧
    (buf = [] ∨ n.pages (off / pageSize) = none ∧ room (off / pageSize) = false)

inductive Wrote (n : TmpfsNode) (heap : Bool) (room : ℕ → Bool) (buf : List UInt8) (off : ℕ) :
    Except TmpfsError ℕ → TmpfsNode → Prop
  | refused {e : TmpfsError} (hs : ¬ n.StoresNothing heap room buf off) : Wrote n heap room buf off (.error e) n
  | nothing {n' : TmpfsNode} (hs : n.StoresNothing heap room buf off) (hl : n'.Ledger) (hb : n'.byte = n.byte)
      (hz : n'.size = max n.size off) : Wrote n heap room buf off (.error .ENOSPC) n'
  | stored {d : ℕ} {n' : TmpfsNode} (hs : ¬ n.StoresNothing heap room buf off) (hd : 0 < d ∧ d ≤ buf.length)
      (hoff : off + d ≤ 2 ^ 36) (hl : n'.Ledger) (hb : n'.byte = Bytes.store n.byte off (buf.take d))
      (hz : n'.size = max n.size (off + d)) : Wrote n heap room buf off (.ok d) n'

lemma tmpfsWrite_wrote (heap : Bool) (room : ℕ → Bool) (h : n.Ledger) (hlen : buf.length < 2 ^ 64) (hoff : off < 2 ^ 64) :
    ∃ r n', n.tmpfsWrite heap room buf off = some (r, n') ∧ Wrote n heap room buf off r n' := by
  rw [tmpfsWrite]
  by_cases hbig : off + buf.length ≤ 2 ^ 36
  · rw [if_neg (by omega)]
    cases hcap : n.ensureCap ((off + buf.length + pageSize - 1) / pageSize) heap with
    | none =>
      obtain ⟨hneed, hheap⟩ := ensureCap_eq_none.1 hcap
      refine ⟨_, n, rfl, .refused fun hs => ?_⟩
      rcases hs.2.1 with hc | hc
      · exact hneed hc
      · rw [hheap] at hc
        cases hc
    | some n₁ =>
      obtain ⟨h₁, hsize, hneed, hpages, hmem⟩ := ensureCap_spec h hcap
      have hroom : (off + buf.length + pageSize - 1) / pageSize ≤ n.cap ∨ heap = true := by
        by_contra hc
        rw [not_or, Bool.not_eq_true] at hc
        rw [ensureCap_eq_none.2 hc] at hcap
        cases hcap
      have hbyte : n₁.byte = n.byte := by
        funext pos
        exact byte_eq (by rw [hpages]) fun f _ => by rw [hmem]
      have hfits : off + buf.length ≤ n₁.cap * pageSize := by
        have hlt := Nat.lt_mul_div_succ (off + buf.length + pageSize - 1) (by decide : 0 < pageSize)
        have hle := Nat.mul_le_mul_left pageSize hneed
        rw [Nat.mul_succ] at hlt
        rw [Nat.mul_comm n₁.cap]
        have hpos : 0 < pageSize := by decide
        omega
      obtain ⟨d, n', he, hw⟩ := writeLoop_writes room buf.length h₁ hfits
        (Nat.zero_le _) (by omega)
      have hnone : d = 0 ↔ n.StoresNothing heap room buf off := by
        rw [hw.none_iff, hpages, Nat.add_zero]
        refine ⟨fun hc => ⟨hbig, hroom, hc.imp_left fun hz => List.eq_nil_of_length_eq_zero hz.symm⟩,
          fun hc => hc.2.2.imp_left fun hz => by rw [hz]; rfl⟩
      have hnew : (if n'.size < off + d then off + d else n'.size) = max n.size (off + d) := by
        rw [hw.size, hsize]
        split_ifs <;> omega
      dsimp only
      rw [he]
      have hb := hw.byte
      rw [hbyte, Nat.add_zero, List.drop_zero, Nat.sub_zero] at hb
      by_cases hd : d = 0
      · refine ⟨_, _, rfl, ?_⟩
        rw [if_pos hd]
        subst hd
        rw [List.take_zero, Bytes.store_nil] at hb
        exact .nothing (hnone.1 rfl) ⟨hw.ledger.range, hw.ledger.live_iff, hw.ledger.once, hw.ledger.fresh⟩ hb hnew
      · refine ⟨_, _, rfl, ?_⟩
        rw [if_neg hd]
        have := hw.le
        exact .stored (mt hnone.2 hd) (by omega) (by omega)
          ⟨hw.ledger.range, hw.ledger.live_iff, hw.ledger.once, hw.ledger.fresh⟩ hb hnew
  · have herr : (off + buf.length) % 2 ^ 64 < off ∨ 2 ^ 36 < (off + buf.length) % 2 ^ 64 := by omega
    rw [if_pos herr]
    exact ⟨_, n, rfl, .refused fun hs => hbig hs.1⟩

lemma zeroTail_spec (h : n.Ledger) (size : ℕ) : Goes n (n.zeroTail size) ∧ ∀ pos, (n.zeroTail size).byte pos =
    if pos / pageSize = size / pageSize ∧ size % pageSize ≠ 0 ∧ size ≤ pos then 0 else n.byte pos := by
  have hmod := Nat.mod_lt size (by decide : 0 < pageSize)
  have hsize := Nat.div_add_mod' size pageSize
  have hpage : ∀ pos, pos / pageSize = size / pageSize → n.pages (size / pageSize) = none → n.byte pos = 0 :=
    fun pos hpos hp => byte_none (hpos ▸ hp)
  rw [zeroTail]
  split_ifs with hc
  · split
    · rename_i f hf
      obtain ⟨hg, hb⟩ := store_spec (l := List.replicate (pageSize - size % pageSize) 0) h hf
        (a := size % pageSize) (by rw [List.length_replicate]; omega)
      refine ⟨hg, fun pos => ?_⟩
      have hpos := Nat.div_add_mod' pos pageSize
      have hpm := Nat.mod_lt pos (by decide : 0 < pageSize)
      rw [hb, hsize, Bytes.store, List.length_replicate]
      by_cases hj : pos / pageSize = size / pageSize
      · rw [hj] at hpos
        refine if_ctx_congr ⟨fun hin => ⟨hj, hc.1, by omega⟩, fun hin => by omega⟩ (fun hin => ?_) fun _ => rfl
        rw [List.getD_eq_getElem?_getD, List.getElem?_replicate]
        split_ifs <;> rfl
      · have hout : ¬ (size ≤ pos ∧ pos < size + (pageSize - size % pageSize)) := by
          intro hin
          refine hj (Nat.div_eq_of_lt_le (by omega) ?_)
          rw [Nat.succ_mul]
          omega
        rw [if_neg hout, if_neg fun hin => hj hin.1]
    · rename_i hf
      refine ⟨⟨h, rfl, rfl⟩, fun pos => ?_⟩
      split_ifs with hin
      · exact hpage pos hin.1 hf
      · rfl
  · refine ⟨⟨h, rfl, rfl⟩, fun pos => ?_⟩
    split_ifs with hin
    · refine hpage pos hin.1 ?_
      cases hp : n.pages (size / pageSize) with
      | none => rfl
      | some f => exact absurd ⟨hin.2.1, h.range _ f hp⟩ hc
    · rfl

lemma tmpfsTruncate_spec (h : n.Ledger) (hsmall : size < 2 ^ 64) (hzero : ∀ pos, n.size ≤ pos → n.byte pos = 0) :
    ∃ n', n.tmpfsTruncate size = some n' ∧ n'.Ledger ∧ n'.size = size ∧
      ∀ pos, n'.byte pos = if size < n.size ∧ 2 ^ 64 - pageSize < size then 0
        else if pos < size then n.byte pos else 0 := by
  rw [tmpfsTruncate]
  by_cases hlt : size < n.size
  · rw [if_pos hlt]
    dsimp only
    obtain ⟨n₁, he, hn⟩ := freePagesFrom_frees h (n.cap - (size + pageSize - 1) % 2 ^ 64 / pageSize)
      ((size + pageSize - 1) % 2 ^ 64 / pageSize)
    obtain ⟨hg, hbyte⟩ := zeroTail_spec hn.ledger size
    rw [he]
    refine ⟨_, rfl, ⟨hg.ledger.range, hg.ledger.live_iff, hg.ledger.once, hg.ledger.fresh⟩, rfl, fun pos => ?_⟩
    have hb : TmpfsNode.byte { n₁.zeroTail size with size := size } pos = (n₁.zeroTail size).byte pos := rfl
    have hfreed : n₁.byte pos =
        if (size + pageSize - 1) % 2 ^ 64 / pageSize ≤ pos / pageSize then 0 else n.byte pos := by
      split_ifs with hpos
      · refine byte_none ?_
        rw [hn.pages]
        split_ifs with hc
        · rfl
        · cases hp : n.pages (pos / pageSize) with
          | none => rfl
          | some f => exact absurd (h.range _ f hp) (by omega)
      · refine byte_eq ?_ fun f _ => by rw [hn.mem]
        rw [hn.pages, if_neg fun hc => hpos hc.1]
    rw [hb, hbyte, hfreed]
    by_cases hwrap : 2 ^ 64 - pageSize < size
    · have hfirst : (size + pageSize - 1) % 2 ^ 64 / pageSize = 0 := by
        simp only [pageSize] at hwrap ⊢
        omega
      rw [hfirst, if_pos (Nat.zero_le _), ite_self, if_pos ⟨hlt, hwrap⟩]
    · have hfirst : (size + pageSize - 1) % 2 ^ 64 = size + pageSize - 1 := by
        simp only [pageSize] at hwrap ⊢
        omega
      rw [if_neg fun hc : size < n.size ∧ _ => hwrap hc.2, hfirst]
      have hbelow : pos < size → ¬ (size + pageSize - 1) / pageSize ≤ pos / pageSize := by
        simp only [pageSize]
        omega
      have hbehind : size ≤ pos → ¬ (pos / pageSize = size / pageSize ∧ size % pageSize ≠ 0 ∧ size ≤ pos) →
          (size + pageSize - 1) / pageSize ≤ pos / pageSize := by
        simp only [pageSize]
        omega
      by_cases hp : pos < size
      · rw [if_pos hp, if_neg (by omega), if_neg (hbelow hp)]
      · rw [if_neg hp, ite_eq_left_iff]
        exact fun hc => if_pos (hbehind (by omega) hc)
  · rw [if_neg hlt]
    refine ⟨_, rfl, ⟨h.range, h.live_iff, h.once, h.fresh⟩, rfl, fun pos => ?_⟩
    rw [if_neg fun hc => hlt hc.1]
    have hb : TmpfsNode.byte { n with size := size } pos = n.byte pos := rfl
    rw [hb]
    split_ifs
    · rfl
    · exact hzero pos (by omega)

end TmpfsNode

namespace TmpfsFile

open TmpfsNode

variable {w w' : TmpfsFile} {a : TmpfsFileAction}

structure Invariant (w : TmpfsFile) : Prop where
  ledger : w.node.Ledger
  small : w.node.size < 2 ^ 64
  size : w.node.size = w.file.length
  byte : w.node.byte = w.file.byte

structure Refines (w : TmpfsFile) : Prop where
  size : w.node.size = w.file.length
  read : ∀ len off, w.node.tmpfsRead len off = w.file.read len off
  write : ∀ heap room buf off, buf.length < 2 ^ 64 → off < 2 ^ 64 → w.node.tmpfsWrite heap room buf off ≠ none
  truncate : ∀ size, size < 2 ^ 64 → w.node.tmpfsTruncate size ≠ none
  held : ∀ f, w.node.live f = true ↔ ∃! i, i < w.node.cap ∧ w.node.pages i = some f
  freed : ∃ n, w.node.tmpfsFreeInode = some n ∧ ∀ f, n.live f = false

/-- No write behind the end stores nothing, and no truncation to a size above `2 ^ 64 - PAGE_SIZE` cuts
off a file with other bytes than zeros. -/
def Careful (w : TmpfsFile) : TmpfsFileAction → Prop
  | .write heap room buf off => w.node.size < off → ¬ w.node.StoresNothing heap room buf off
  | .truncate size => size < w.node.size → 2 ^ 64 - pageSize < size → ∀ i < size, w.node.byte i = 0

lemma Invariant.zero (hw : w.Invariant) : ∀ pos, w.node.size ≤ pos → w.node.byte pos = 0 := by
  intro pos hpos
  rw [hw.byte]
  exact w.file.zero pos (hw.size ▸ hpos)

lemma Invariant.refines (hw : w.Invariant) : w.Refines where
  size := hw.size
  read len off := by rw [tmpfsRead_eq hw.ledger, ByteFile.read, hw.byte, hw.size]
  write heap room buf off hlen hoff hnone := by
    obtain ⟨r, n, he, -⟩ := tmpfsWrite_wrote heap room hw.ledger hlen hoff
    rw [he] at hnone
    cases hnone
  truncate size hsmall hnone := by
    obtain ⟨n, he, -⟩ := tmpfsTruncate_spec hw.ledger hsmall hw.zero
    rw [he] at hnone
    cases hnone
  held f := by
    rw [hw.ledger.live_iff]
    constructor
    · rintro ⟨i, hi⟩
      exact ⟨i, ⟨hw.ledger.range i f hi, hi⟩, fun j hj => hw.ledger.once j i f hj.2 hi⟩
    · rintro ⟨i, ⟨-, hi⟩, -⟩
      exact ⟨i, hi⟩
  freed := by
    obtain ⟨n, he, hn⟩ := freePagesFrom_frees hw.ledger w.node.cap 0
    refine ⟨n, he, fun f => ?_⟩
    rw [← Bool.not_eq_true, hn.ledger.live_iff]
    rintro ⟨i, hi⟩
    have hrange := hn.ledger.range i f hi
    rw [hn.pages, if_pos (by rw [hn.cap] at hrange; omega)] at hi
    cases hi

lemma Invariant.step (hw : w.Invariant) (hs : system.step w a w') :
    (Careful w a → w'.Invariant) ∧ (w'.Refines → Careful w a) := by
  cases a with
  | write heap room buf off =>
    obtain ⟨hlen, hoff, r, n, he, rfl⟩ := hs
    obtain ⟨r', n', he', hwrote⟩ := tmpfsWrite_wrote heap room hw.ledger hlen hoff
    cases he.symm.trans he'
    cases hwrote with
    | refused hnot => exact ⟨fun _ => hw, fun _ _ => hnot⟩
    | nothing hnothing hl hb hz =>
      refine ⟨fun hc => ⟨hl, ?_, ?_, hb.trans hw.byte⟩, fun hr hlt => ?_⟩
      · rw [hz]
        exact max_lt hw.small hoff
      · have hle : ¬ w.node.size < off := fun hlt => hc hlt hnothing
        rw [hz, max_eq_left (by omega)]
        exact hw.size
      · have hsize := hr.size
        rw [hz, ByteFile.afterWrite, ← hw.size] at hsize
        omega
    | stored hnot hd hend hl hb hz =>
      refine ⟨fun _ => ⟨hl, ?_, ?_, ?_⟩, fun _ _ => hnot⟩
      · rw [hz]
        exact max_lt hw.small (by omega)
      · show n.size = max w.file.length (off + (buf.take _).length)
        rw [hz, hw.size, List.length_take, min_eq_left hd.2]
      · rw [hb, hw.byte]
        rfl
  | truncate size =>
    obtain ⟨hsmall, n, he, rfl⟩ := hs
    obtain ⟨n', he', hl, hz, hb⟩ := tmpfsTruncate_spec hw.ledger hsmall hw.zero
    cases he.symm.trans he'
    refine ⟨fun hc => ⟨hl, hz ▸ hsmall, hz, ?_⟩, fun hr hlt hwrap i hi => ?_⟩
    · funext pos
      rw [hb]
      show _ = if pos < size then w.file.byte pos else 0
      rw [← hw.byte]
      split_ifs with hwrap hpos
      · exact (hc hwrap.1 hwrap.2 pos hpos).symm
      all_goals rfl
    · have hread := hr.read 1 i
      have hone : min 1 (size - i) = 1 := by omega
      rw [tmpfsRead_eq hl, hz, ByteFile.read, ByteFile.truncate, hone] at hread
      have hbyte := List.cons.inj hread
      simp only [Nat.add_zero, hb, if_pos (And.intro hlt hwrap), if_pos hi] at hbyte
      rw [hw.byte, ← hbyte.1]

lemma guarded_invariant (h : (system.guarded Careful).Reachable w) : w.Invariant := by
  refine h.invariant (fun w hi => ?_) fun w a w' hw hst => (hw.step hst.2).1 hst.1
  obtain ⟨hsize, hcap, hpages, hlive, hfile⟩ := hi
  refine ⟨⟨fun i f hf => ?_, fun f => ?_, fun i j f hf => ?_, fun f hf => ?_⟩, by omega, by rw [hsize, hfile]; rfl, ?_⟩
  · rw [hpages] at hf
    cases hf
  · rw [hlive]
    exact iff_of_false nofun fun ⟨i, hi⟩ => by rw [hpages] at hi; cases hi
  · rw [hpages] at hf
    cases hf
  · rw [hlive] at hf
    cases hf
  · funext pos
    rw [byte_none (hpages _), hfile]
    rfl

theorem careful_refines (h : (system.guarded Careful).Reachable w) :
    w.Refines ∧ ∀ a w', system.step w a w' → (w'.Refines ↔ Careful w a) := by
  have hw := guarded_invariant h
  exact ⟨hw.refines, fun a w' hs => ⟨(hw.step hs).2, fun hc => ((hw.step hs).1 hc).refines⟩⟩

def start : TmpfsFile := ⟨⟨0, 0, fun _ => none, fun _ _ => 0, 0, fun _ => false⟩, .empty⟩

lemma start_init : system.init start := ⟨rfl, rfl, fun _ => rfl, fun _ => rfl, rfl⟩

lemma not_storesNothing {n : TmpfsNode} {heap : Bool} {room : ℕ → Bool} {buf : List UInt8} {off : ℕ} (hbuf : buf ≠ [])
    (hroom : room (off / pageSize) = true) : ¬ n.StoresNothing heap room buf off := by
  rintro ⟨-, -, h | ⟨-, h⟩⟩
  · exact hbuf h
  · exact Bool.false_ne_true (h.symm.trans hroom)

/-- Three bytes over the end of a page are written, all but the first cut off, and one byte written behind a gap. -/
def writtenCut : { w : TmpfsFile // (system.guarded Careful).Reachable w } :=
  have h₀ : (system.guarded Careful).Reachable start := .init start_init
  have h₁ : (system.guarded Careful).Reachable _ := .step (.write true (fun _ => true) [1, 2, 3] 4094) h₀
    ⟨fun _ => not_storesNothing (List.cons_ne_nil _ _) rfl, by decide, by decide, _, _, rfl, rfl⟩
  have h₂ : (system.guarded Careful).Reachable _ := .step (.truncate 4095) h₁ ⟨fun _ h => absurd h (by decide), by decide, _, rfl, rfl⟩
  have h₃ : (system.guarded Careful).Reachable _ := .step (.write true (fun _ => true) [9] 5000) h₂
    ⟨fun _ => not_storesNothing (List.cons_ne_nil _ _) rfl, by decide, by decide, _, _, rfl, rfl⟩
  ⟨_, h₃⟩

theorem careful_refines_writtenCut : writtenCut.1.node.size = 5001 ∧ writtenCut.1.node.tmpfsRead 4 4093 = [0, 1, 0, 0] ∧
    writtenCut.1.node.tmpfsRead 4 4999 = [0, 9] ∧ writtenCut.1.Refines :=
  ⟨by decide +kernel, by decide +kernel, by decide +kernel, (careful_refines writtenCut.2).1⟩

theorem truncate_loses : ¬ ∀ w, system.Reachable w → w.Refines := by
  intro hall
  have h₀ : system.Reachable start := .init start_init
  have hw₀ : start.Invariant := guarded_invariant (.init start_init)
  have hr : (start.node.tmpfsWrite true (fun _ => true) [1] 0).map Prod.fst = some (.ok 1) := by decide
  obtain ⟨⟨r, n₁⟩, he₁, hfst⟩ := Option.map_eq_some_iff.1 hr
  obtain rfl : r = .ok 1 := hfst
  have hs₁ : system.step start (.write true (fun _ => true) [1] 0) ⟨n₁, start.file.write 0 [1]⟩ :=
    ⟨by decide, by decide, _, n₁, he₁, rfl⟩
  have hw₁ := (hw₀.step hs₁).1 fun hlt => absurd hlt (Nat.not_lt_zero _)
  obtain ⟨n₂, he₂⟩ := Option.ne_none_iff_exists'.1 (hw₁.refines.truncate (2 ^ 64 - 1) (by decide))
  have hs₂ : system.step _ (.truncate (2 ^ 64 - 1)) ⟨n₂, (start.file.write 0 [1]).truncate (2 ^ 64 - 1)⟩ :=
    ⟨by decide, n₂, he₂, rfl⟩
  have hw₂ := (hw₁.step hs₂).1 fun hlt => by
    have hsize : n₁.size = 1 := hw₁.size
    exact absurd hlt (by show ¬ _ < n₁.size; rw [hsize]; decide)
  obtain ⟨n₃, he₃⟩ := Option.ne_none_iff_exists'.1 (hw₂.refines.truncate (2 ^ 64 - 2) (by decide))
  have hs₃ : system.step _ (.truncate (2 ^ 64 - 2)) ⟨n₃, _⟩ := ⟨by decide, n₃, he₃, rfl⟩
  have hr₃ : system.Reachable ⟨n₃, _⟩ := .step _ (.step _ (.step _ h₀ hs₁) hs₂) hs₃
  have hsize : n₂.size = 2 ^ 64 - 1 := hw₂.size
  have hlost : n₂.byte 0 = 0 := (hw₂.step hs₃).2 (hall _ hr₃) (by show _ < n₂.size; rw [hsize]; decide)
    (by decide) 0 (by decide)
  have hkept : n₂.byte 0 = 1 := congrFun hw₂.byte 0
  rw [hkept] at hlost
  cases hlost

end TmpfsFile

end MyOS.Fs
