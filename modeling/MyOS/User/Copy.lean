import MyOS.Fs.FileOpen

/-! `copy_file` of `cp`, with reads and writes that transfer less than was asked for. -/

namespace MyOS.User

open Fs Function

def copyBufferSize : ℕ := 32 * 1024

/-- What the calls of `copy_file` come to: the errors of both `open`s, and for each `read` and `write` an error or the
number of the bytes, less one, that are transferred if there are so many, and if a device has room for them. -/
structure CopyCalls where
  source : OpenErrors := {}
  target : OpenErrors := {}
  transfer : ℕ → Option ℕ

structure Written where
  all : Bool
  call : ℕ
  storage : Storage

section Loops

variable (transfer : ℕ → Option ℕ)

/-- The inner loop; it is given up when the counter is used up. A `write` that has written nothing is made again. -/
def writeAll (out : SbInode) : ℕ → ℕ → ℕ → List UInt8 → Storage → Option Written
  | 0, _, _, _, _ => none
  | fuel + 1, call, pos, chunk, w =>
    if chunk = [] then some ⟨true, call, w⟩
    else
      match transfer call with
      | none => some ⟨false, call + 1, w⟩
      | some k =>
        let (n, w) := w.write out pos (chunk.take (k + 1))
        writeAll out fuel (call + 1) (pos + n) (chunk.drop n) w

def copyLoop (inode out : SbInode) : ℕ → ℕ → ℕ → ℕ → Storage → Option (ℕ × Storage)
  | 0, _, _, _, _ => none
  | fuel + 1, call, inPos, outPos, w =>
    let rest := (w.bytes inode).drop inPos
    if rest = [] then some (0, w)
    else
      match transfer call with
      | none => some (1, w)
      | some k =>
        let chunk := rest.take (min (k + 1) copyBufferSize)
        (writeAll transfer out fuel (call + 1) outPos chunk w).bind fun r =>
          if r.all then copyLoop inode out fuel r.call (inPos + chunk.length) (outPos + chunk.length) r.storage
          else some (1, r.storage)

end Loops

def copyFile (calls : CopyCalls) (fuel : ℕ) (src dst : CString) (w : Storage) : Option (ℕ × Storage) :=
  match w.vfsOpen Storage.readFlags calls.source src with
  | (.error _, w) => some (1, w)
  | (.ok inode, w) =>
    if w.mounts.isDir inode then some (1, w)
    else
      match w.vfsOpen Storage.truncFlags calls.target dst with
      | (.error _, w) => some (1, w)
      | (.ok out, w) => copyLoop calls.transfer inode out fuel 0 0 0 w

def overwrite (b : List UInt8) (pos : ℕ) (l : List UInt8) : List UInt8 := b.take pos ++ l ++ b.drop (pos + l.length)

section Overwrite

variable {b l l' : List UInt8} {pos : ℕ}

lemma overwrite_nil : overwrite b pos [] = b := by
  rw [overwrite, List.append_nil, List.length_nil, Nat.add_zero, List.take_append_drop]

lemma length_overwrite (h : pos ≤ b.length) : (overwrite b pos l).length = max b.length (pos + l.length) := by
  rw [overwrite, List.length_append, List.length_append, List.length_take, List.length_drop]
  omega

lemma overwrite_append (h : pos ≤ b.length) :
    overwrite (overwrite b pos l) (pos + l.length) l' = overwrite b pos (l ++ l') := by
  have hlen : (b.take pos ++ l).length = pos + l.length := by
    rw [List.length_append, List.length_take, Nat.min_eq_left h]
  have htake : (overwrite b pos l).take (pos + l.length) = b.take pos ++ l := List.take_left' hlen
  have hdrop : (overwrite b pos l).drop (pos + l.length + l'.length) = b.drop (pos + l.length + l'.length) := by
    rw [← List.drop_drop, overwrite, List.drop_left' hlen, List.drop_drop]
  rw [overwrite, htake, hdrop, overwrite, List.length_append, List.append_assoc (b.take pos) l l', Nat.add_assoc]

lemma overwrite_self (h : l <+: b.drop pos) : overwrite b pos l = b := by
  obtain ⟨rest, hrest⟩ := h
  have hdrop : b.drop (pos + l.length) = rest := by rw [← List.drop_drop, ← hrest, List.drop_left]
  rw [overwrite, hdrop, List.append_assoc, hrest, List.take_append_drop]

end Overwrite

section Loops

variable {transfer : ℕ → Option ℕ} {inode out : SbInode} {call pos : ℕ} {chunk : List UInt8} {w : Storage}

lemma writeAt_eq (h : pos ≤ (w.bytes out).length) :
    w.writeAt out pos chunk = w.setBytes out (overwrite (w.bytes out) pos chunk) := by
  rw [Storage.writeAt, Nat.sub_eq_zero_of_le h, List.replicate_zero, List.append_nil, overwrite]

@[simp]
lemma setBytes_bytes {l : List UInt8} : (w.setBytes out l).bytes out = l := update_self _ _ _

lemma setBytes_bytes_of_ne {l : List UInt8} (h : inode ≠ out) : (w.setBytes out l).bytes inode = w.bytes inode :=
  update_of_ne h _ _

@[simp]
lemma setBytes_setBytes {l l' : List UInt8} : (w.setBytes out l).setBytes out l' = w.setBytes out l' := by
  simp [Storage.setBytes]

@[simp]
lemma setBytes_self : w.setBytes out (w.bytes out) = w := by simp [Storage.setBytes]

lemma write_of_room (hpos : pos ≤ (w.bytes out).length)
    (hroom : w.device out = true → pos + chunk.length ≤ (w.bytes out).length) :
    w.write out pos chunk = (chunk.length, w.setBytes out (overwrite (w.bytes out) pos chunk)) := by
  have hpart : (if w.device out then chunk.take ((w.bytes out).length - pos) else chunk) = chunk := by
    split_ifs with hd
    · exact List.take_of_length_le (by have := hroom hd; omega)
    · rfl
  rw [Storage.write, hpart]
  by_cases hc : chunk = []
  · rw [if_pos hc, hc, overwrite_nil, setBytes_self]
  · rw [if_neg hc, writeAt_eq hpos]

lemma writeAll_puts (transfer : ℕ → Option ℕ) (out : SbInode) (call pos : ℕ) (chunk : List UInt8) (w : Storage)
    (hpos : pos ≤ (w.bytes out).length)
    (hroom : w.device out = true → pos + chunk.length ≤ (w.bytes out).length) :
    ∃ r l, (∀ fuel, chunk.length < fuel → writeAll transfer out fuel call pos chunk w = some r) ∧ l <+: chunk ∧
      r.storage = w.setBytes out (overwrite (w.bytes out) pos l) ∧ (r.all = true → l = chunk) ∧
        ((∀ c, transfer c ≠ none) → r.all = true) := by
  induction hk : chunk.length using Nat.strong_induction_on generalizing call pos chunk w with
  | _ k ih =>
    subst hk
    have hnone : w = w.setBytes out (overwrite (w.bytes out) pos []) := by rw [overwrite_nil, setBytes_self]
    by_cases hc : chunk = []
    · refine ⟨⟨true, call, w⟩, [], fun fuel hf => ?_, List.nil_prefix, hnone, fun _ => hc.symm, fun _ => rfl⟩
      obtain ⟨fuel, rfl⟩ := Nat.exists_eq_succ_of_ne_zero (Nat.ne_zero_of_lt hf)
      rw [writeAll, if_pos hc]
    have hone := List.length_pos_iff.2 hc
    cases ht : transfer call with
    | none =>
      refine ⟨⟨false, call + 1, w⟩, [], fun fuel hf => ?_, List.nil_prefix, hnone, nofun, fun h => absurd ht (h call)⟩
      obtain ⟨fuel, rfl⟩ := Nat.exists_eq_succ_of_ne_zero (Nat.ne_zero_of_lt hf)
      rw [writeAll, if_neg hc, ht]
    | some k =>
      set part := chunk.take (k + 1) with hpart
      have hpl : part.length = min (k + 1) chunk.length := List.length_take
      have hwrite : w.write out pos part = _ := write_of_room hpos fun hd => by have := hroom hd; omega
      have hlen : (overwrite (w.bytes out) pos part).length = _ := length_overwrite hpos
      obtain ⟨r, l, hrun, hl, hstore, hall, htrue⟩ := ih (chunk.drop part.length).length
        (by rw [List.length_drop]; omega) (call + 1) (pos + part.length) _
        (w.setBytes out (overwrite (w.bytes out) pos part)) (by rw [setBytes_bytes]; omega)
        (fun hd => by
          have := hroom hd
          rw [setBytes_bytes, List.length_drop]
          omega) rfl
      have hsplit : part ++ chunk.drop part.length = chunk :=
        List.prefix_iff_eq_append.1 (List.take_prefix (k + 1) chunk)
      refine ⟨r, part ++ l, fun fuel hf => ?_, ?_, ?_, fun ha => ?_, htrue⟩
      · obtain ⟨fuel, rfl⟩ := Nat.exists_eq_succ_of_ne_zero (Nat.ne_zero_of_lt hf)
        rw [writeAll, if_neg hc, ht]
        dsimp only
        rw [hwrite]
        exact hrun fuel (by rw [List.length_drop]; omega)
      · exact hsplit ▸ (List.prefix_append_right_inj part).2 hl
      · rw [hstore, setBytes_bytes, setBytes_setBytes, overwrite_append hpos]
      · rw [hall ha, hsplit]

lemma writeAll_stuck (ht : ∀ c, transfer c ≠ none) (hdev : w.device out = true) (hpos : pos ≤ (w.bytes out).length)
    (hfull : (w.bytes out).length < pos + chunk.length) (fuel : ℕ) : writeAll transfer out fuel call pos chunk w = none := by
  induction fuel generalizing call pos chunk w with
  | zero => rfl
  | succ fuel ih =>
    have hc : chunk ≠ [] := by
      rintro rfl
      rw [List.length_nil] at hfull
      omega
    obtain ⟨k, hk⟩ := Option.ne_none_iff_exists'.1 (ht call)
    rw [writeAll, if_neg hc, hk]
    dsimp only [Storage.write]
    rw [if_pos hdev]
    set part := (chunk.take (k + 1)).take ((w.bytes out).length - pos) with hpart
    have hpl : part.length ≤ (w.bytes out).length - pos ∧ part.length ≤ chunk.length := by
      rw [hpart, List.length_take, List.length_take]
      omega
    have hlen : (overwrite (w.bytes out) pos part).length = (w.bytes out).length := by
      rw [length_overwrite hpos]
      omega
    have hdrop : (chunk.drop part.length).length = chunk.length - part.length := List.length_drop
    split
    · exact ih hdev (by omega) (by omega)
    · rw [writeAt_eq hpos]
      refine ih hdev ?_ ?_ <;> rw [setBytes_bytes, hlen] <;> omega

lemma length_piece {src : List UInt8} (hrest : src.drop pos ≠ []) (k : ℕ) :
    0 < ((src.drop pos).take (min (k + 1) copyBufferSize)).length ∧
      pos + ((src.drop pos).take (min (k + 1) copyBufferSize)).length ≤ src.length := by
  have := List.length_pos_iff.2 hrest
  rw [List.length_drop] at this
  rw [List.length_take, List.length_drop, copyBufferSize]
  omega

lemma copyLoop_copies (transfer : ℕ → Option ℕ) (call pos : ℕ) {src : List UInt8} (old : List UInt8) (h : inode ≠ out)
    (hsrc : w.bytes inode = src) (hout : w.bytes out = src.take pos ++ old.drop pos) (hpos : pos ≤ src.length)
    (hroom : w.device out = true → src.length ≤ old.length) :
    ∃ s l, (∀ fuel, src.length - pos + 1 < fuel →
      copyLoop transfer inode out fuel call pos pos w = some (s, w.setBytes out l)) ∧
        (s = 0 → l = src ++ old.drop src.length) ∧ ((∀ c, transfer c ≠ none) → s = 0) := by
  induction hk : src.length - pos using Nat.strong_induction_on generalizing call pos w with
  | _ k ih =>
    subst hk
    by_cases hrest : src.drop pos = []
    · have hend : pos = src.length := le_antisymm hpos (List.drop_eq_nil_iff.1 hrest)
      refine ⟨0, w.bytes out, fun fuel hf => ?_, fun _ => ?_, fun _ => rfl⟩
      · obtain ⟨fuel, rfl⟩ := Nat.exists_eq_succ_of_ne_zero (Nat.ne_zero_of_lt hf)
        rw [copyLoop, hsrc, setBytes_self]
        exact if_pos hrest
      · rw [hout, hend, List.take_length]
    cases ht : transfer call with
    | none =>
      refine ⟨1, w.bytes out, fun fuel hf => ?_, nofun, fun hall => absurd ht (hall call)⟩
      obtain ⟨fuel, rfl⟩ := Nat.exists_eq_succ_of_ne_zero (Nat.ne_zero_of_lt hf)
      rw [copyLoop, hsrc, setBytes_self]
      simp only [if_neg hrest, ht]
    | some k =>
      obtain ⟨hone, hle⟩ := length_piece hrest k
      set chunk := (src.drop pos).take (min (k + 1) copyBufferSize) with hchunk
      have hlen : (w.bytes out).length = max pos old.length := by
        rw [hout, List.length_append, List.length_take, List.length_drop]
        omega
      obtain ⟨r, l, hrun, -, hstore, hall, htrue⟩ := writeAll_puts transfer out (call + 1) pos chunk w (by omega)
        (fun hd => by have := hroom hd; omega)
      cases ha : r.all with
      | false =>
        refine ⟨1, overwrite (w.bytes out) pos l, fun fuel hf => ?_, nofun, fun hc => ?_⟩
        · obtain ⟨fuel, rfl⟩ := Nat.exists_eq_succ_of_ne_zero (Nat.ne_zero_of_lt hf)
          rw [copyLoop, hsrc]
          simp only [if_neg hrest, ht, ← hchunk]
          rw [hrun fuel (by omega), Option.bind_some, ha, hstore]
          rfl
        · exact absurd ((htrue hc).symm.trans ha) (by decide)
      | true =>
        rw [hall ha] at hstore
        have htake : src.take (pos + chunk.length) = src.take pos ++ chunk := by
          rw [List.take_add, hchunk, List.length_take, ← List.take_eq_take_min]
        have hput : overwrite (w.bytes out) pos chunk = src.take (pos + chunk.length) ++ old.drop (pos + chunk.length) := by
          have hpl : (src.take pos).length = pos := by rw [List.length_take, Nat.min_eq_left hpos]
          rw [overwrite, hout, htake, List.take_left' hpl, ← List.drop_drop, List.drop_left' hpl, List.drop_drop]
        rw [hput] at hstore
        obtain ⟨s, l', hrun', hs, hzero⟩ := ih (src.length - (pos + chunk.length)) (by omega) r.call
          (pos + chunk.length) (w := r.storage) (by rw [hstore, setBytes_bytes_of_ne h, hsrc]) (by rw [hstore, setBytes_bytes]) hle
          (by rw [hstore]; exact hroom) rfl
        refine ⟨s, l', fun fuel hf => ?_, hs, hzero⟩
        obtain ⟨fuel, rfl⟩ := Nat.exists_eq_succ_of_ne_zero (Nat.ne_zero_of_lt hf)
        rw [copyLoop, hsrc]
        simp only [if_neg hrest, ht, ← hchunk]
        rw [hrun fuel (by omega), Option.bind_some, if_pos ha, hrun' fuel (by omega), hstore, setBytes_setBytes]

lemma copyLoop_self (transfer : ℕ → Option ℕ) (call pos : ℕ) (hpos : pos ≤ (w.bytes out).length) :
    ∃ s, ∀ fuel, (w.bytes out).length - pos + 1 < fuel → copyLoop transfer out out fuel call pos pos w = some (s, w) := by
  induction hk : (w.bytes out).length - pos using Nat.strong_induction_on generalizing call pos with
  | _ k ih =>
    subst hk
    by_cases hrest : (w.bytes out).drop pos = []
    · refine ⟨0, fun fuel hf => ?_⟩
      obtain ⟨fuel, rfl⟩ := Nat.exists_eq_succ_of_ne_zero (Nat.ne_zero_of_lt hf)
      rw [copyLoop]
      exact if_pos hrest
    cases ht : transfer call with
    | none =>
      refine ⟨1, fun fuel hf => ?_⟩
      obtain ⟨fuel, rfl⟩ := Nat.exists_eq_succ_of_ne_zero (Nat.ne_zero_of_lt hf)
      rw [copyLoop]
      simp only [if_neg hrest, ht]
    | some k =>
      obtain ⟨hone, hle⟩ := length_piece hrest k
      set chunk := ((w.bytes out).drop pos).take (min (k + 1) copyBufferSize) with hchunk
      obtain ⟨r, l, hrun, hl, hstore, -, -⟩ := writeAll_puts transfer out (call + 1) pos chunk w hpos fun _ => hle
      rw [overwrite_self (hl.trans (List.take_prefix _ _)), setBytes_self] at hstore
      obtain ⟨s, hrun'⟩ := ih ((w.bytes out).length - (pos + chunk.length)) (by omega) r.call _ hle rfl
      cases ha : r.all with
      | false =>
        refine ⟨1, fun fuel hf => ?_⟩
        obtain ⟨fuel, rfl⟩ := Nat.exists_eq_succ_of_ne_zero (Nat.ne_zero_of_lt hf)
        rw [copyLoop]
        simp only [if_neg hrest, ht, ← hchunk]
        rw [hrun fuel (by omega), Option.bind_some, ha, hstore]
        rfl
      | true =>
        refine ⟨s, fun fuel hf => ?_⟩
        obtain ⟨fuel, rfl⟩ := Nat.exists_eq_succ_of_ne_zero (Nat.ne_zero_of_lt hf)
        rw [copyLoop]
        simp only [if_neg hrest, ht, ← hchunk]
        rw [hrun fuel (by omega), Option.bind_some, if_pos ha, hstore, hrun' fuel (by omega)]

lemma copyLoop_stuck (ht : ∀ c, transfer c ≠ none) (h : inode ≠ out) (hdev : w.device out = true)
    (hlong : (w.bytes out).length < (w.bytes inode).length) (hpos : pos ≤ (w.bytes out).length) {fuel : ℕ}
    (hfuel : (w.bytes inode).length - pos + 1 < fuel) : copyLoop transfer inode out fuel call pos pos w = none := by
  induction fuel generalizing call pos w with
  | zero => rfl
  | succ fuel ih =>
    have hrest : (w.bytes inode).drop pos ≠ [] := fun he => by
      have := List.drop_eq_nil_iff.1 he
      omega
    obtain ⟨k, hk⟩ := Option.ne_none_iff_exists'.1 (ht call)
    obtain ⟨hone, hle⟩ := length_piece hrest k
    rw [copyLoop]
    simp only [if_neg hrest, hk]
    set chunk := ((w.bytes inode).drop pos).take (min (k + 1) copyBufferSize)
    by_cases hfull : (w.bytes out).length < pos + chunk.length
    · rw [writeAll_stuck ht hdev hpos hfull]
      rfl
    · obtain ⟨r, l, hrun, -, hstore, hall, htrue⟩ := writeAll_puts transfer out (call + 1) pos chunk w hpos
        fun _ => by omega
      rw [hall (htrue ht)] at hstore
      have hlen : (r.storage.bytes out).length = (w.bytes out).length := by
        rw [hstore, setBytes_bytes, length_overwrite hpos]
        omega
      have hin : r.storage.bytes inode = w.bytes inode := by rw [hstore, setBytes_bytes_of_ne h]
      rw [hrun fuel (by omega), Option.bind_some, if_pos (htrue ht)]
      refine ih ?_ ?_ ?_ ?_
      · rw [hstore]
        exact hdev
      · rw [hlen, hin]
        exact hlong
      · omega
      · rw [hin]
        omega

end Loops

section File

variable {w : Storage} {src dst : CString} {calls : CopyCalls} {i o : SbInode}

def CopyReturns (calls : CopyCalls) (src dst : CString) (w : Storage) (r : ℕ × Storage) : Prop :=
  ∃ n, ∀ fuel, n ≤ fuel → copyFile calls fuel src dst w = some r

structure Copies (src dst : CString) (w : Storage) : Prop where
  returns : ∀ calls, ∃ r, CopyReturns calls src dst w r
  copied : ∀ calls w', CopyReturns calls src dst w (0, w') →
    ∃ l, w.contents src = .ok l ∧ w'.contents dst = .ok l ∧ w'.contents src = .ok l

/-- The target is not the source that it empties, and a device has just as many bytes as the source. -/
def Copyable (src dst : CString) (w : Storage) : Prop := ∀ i, w.lookup src = .ok i → w.mounts.isDir i = false →
  (w.Truncates dst i → w.bytes i = []) ∧
    ∀ o, w.OpensDevice dst o → o ≠ i → (w.bytes o).length = (w.bytes i).length

lemma CopyReturns.unique {r r' : ℕ × Storage} (h : CopyReturns calls src dst w r)
    (h' : CopyReturns calls src dst w r') : r = r' := by
  obtain ⟨n, hn⟩ := h
  obtain ⟨n', hn'⟩ := h'
  exact Option.some.inj ((hn _ (Nat.le_max_left n n')).symm.trans (hn' _ (Nat.le_max_right n n')))

structure Apart (src dst : CString) (i o : SbInode) (w w₁ : Storage) : Prop where
  ne : i ≠ o
  source : w₁.lookup src = .ok i
  target : w₁.lookup dst = .ok o
  kept : w₁.bytes i = w.bytes i
  empty : w₁.bytes o = []
  device : w₁.device o = false

lemma opened_cases (hs : w.lookup src = .ok i) {w₁ : Storage}
    (ho : w.vfsOpen Storage.truncFlags calls.target dst = (.ok o, w₁)) :
    i = o ∧ w.Truncates dst i ∧ w₁ = w.setBytes i [] ∨ w.OpensDevice dst o ∧ w₁ = w ∨ Apart src dst i o w w₁ := by
  obtain ⟨ht, rfl⟩ | hdev | ⟨dir, name, hp, hnew, rfl, rfl⟩ := Storage.vfsOpen_trunc ho
  · by_cases hio : i = o
    · subst hio
      exact .inl ⟨rfl, ht, rfl⟩
    · exact .inr (.inr ⟨hio, hs, ht.lookup, setBytes_bytes_of_ne hio, setBytes_bytes,
        (Storage.regular_iff.1 ht.regular).2⟩)
  · exact .inr (.inl hdev)
  · have hreg : (w.create dir name).regular ⟨dir.sb, w.next dir.sb⟩ = true := Storage.regular_created
    have hne : i ≠ ⟨dir.sb, w.next dir.sb⟩ := by
      rintro rfl
      exact absurd (Storage.lookup_lt hs) (lt_irrefl _)
    have hkept : (w.create dir name).bytes i = w.bytes i := update_of_ne hne _ _
    exact .inr (.inr ⟨hne, Storage.lookup_create hnew hs, Storage.lookup_created hp hnew,
      (setBytes_bytes_of_ne hne).trans hkept, setBytes_bytes, (Storage.regular_iff.1 hreg).2⟩)

lemma copyFile_opened (hs : w.vfsOpen Storage.readFlags calls.source src = (.ok i, w)) (hdir : w.mounts.isDir i = false)
    {w₁ : Storage} (ho : w.vfsOpen Storage.truncFlags calls.target dst = (.ok o, w₁)) (fuel : ℕ) :
    copyFile calls fuel src dst w = copyLoop calls.transfer i o fuel 0 0 0 w₁ := by
  rw [copyFile, hs]
  dsimp only
  rw [if_neg (by rw [hdir]; exact Bool.false_ne_true), ho]

lemma copyFile_cases (w : Storage) (src dst : CString) (calls : CopyCalls) :
    (∃ w', CopyReturns calls src dst w (1, w')) ∨
    ∃ i o w₁, w.lookup src = .ok i ∧ w.mounts.isDir i = false ∧
      w.vfsOpen Storage.truncFlags calls.target dst = (.ok o, w₁) ∧
        ∀ fuel, copyFile calls fuel src dst w = copyLoop calls.transfer i o fuel 0 0 0 w₁ := by
  have hgive {r : ℕ × Storage} (h : ∀ fuel, copyFile calls fuel src dst w = some r) :
      CopyReturns calls src dst w r := ⟨0, fun fuel _ => h fuel⟩
  rcases hsrc : w.vfsOpen Storage.readFlags calls.source src with ⟨e | i, w'⟩
  · exact .inl ⟨w', hgive fun fuel => by rw [copyFile, hsrc]⟩
  obtain ⟨rfl, hs⟩ := Storage.vfsOpen_read hsrc
  by_cases hdir : w'.mounts.isDir i = true
  · exact .inl ⟨w', hgive fun fuel => by rw [copyFile, hsrc]; exact if_pos hdir⟩
  rw [Bool.not_eq_true] at hdir
  rcases hdst : w'.vfsOpen Storage.truncFlags calls.target dst with ⟨e | o, w₁⟩
  · refine .inl ⟨w₁, hgive fun fuel => ?_⟩
    rw [copyFile, hsrc]
    dsimp only
    rw [if_neg (by rw [hdir]; exact Bool.false_ne_true), hdst]
  · exact .inr ⟨i, o, w₁, hs, hdir, rfl, copyFile_opened hsrc hdir hdst⟩

lemma contents_ok (h : w.lookup src = .ok i) : w.contents src = .ok (w.bytes i) := by
  rw [Storage.contents, h]
  rfl

lemma contents_setBytes (h : w.lookup src = .ok o) (l : List UInt8) : (w.setBytes o l).contents src = .ok l :=
  (contents_ok (w := w.setBytes o l) h).trans (congrArg Except.ok setBytes_bytes)

lemma contents_setBytes_of_ne (h : w.lookup src = .ok i) (hio : i ≠ o) (l : List UInt8) :
    (w.setBytes o l).contents src = .ok (w.bytes i) :=
  (contents_ok (w := w.setBytes o l) h).trans (congrArg Except.ok (setBytes_bytes_of_ne hio))

lemma copyReturns_emptied (h : ∀ fuel, copyFile calls fuel src dst w = copyLoop calls.transfer i i fuel 0 0 0
    (w.setBytes i [])) : CopyReturns calls src dst w (0, w.setBytes i []) := by
  refine ⟨1, fun fuel hf => ?_⟩
  obtain ⟨fuel, rfl⟩ := Nat.exists_eq_succ_of_ne_zero (Nat.ne_zero_of_lt hf)
  rw [h, copyLoop]
  simp

def unfailing : CopyCalls where
  transfer _ := some 0

lemma Copies.empty (h : Copies src dst w) (hs : w.lookup src = .ok i) (ht : w.Truncates dst i) : w.bytes i = [] := by
  have hret : CopyReturns unfailing src dst w _ := copyReturns_emptied <|
    copyFile_opened (Storage.vfsOpen_found hs) (Storage.regular_iff.1 ht.regular).1 ht.vfsOpen
  obtain ⟨l, hbefore, -, hafter⟩ := h.copied _ _ hret
  rw [contents_ok hs] at hbefore
  rw [contents_setBytes hs] at hafter
  exact (Except.ok.inj hbefore).trans (Except.ok.inj hafter).symm

lemma Copies.length_eq (h : Copies src dst w) (hs : w.lookup src = .ok i) (hdir : w.mounts.isDir i = false)
    (hd : w.OpensDevice dst o) (hne : o ≠ i) : (w.bytes o).length = (w.bytes i).length := by
  have hrun : ∀ fuel, copyFile unfailing fuel src dst w = _ :=
    copyFile_opened (Storage.vfsOpen_found hs) hdir hd.vfsOpen
  have ht : ∀ c, unfailing.transfer c ≠ none := fun _ => Option.some_ne_none 0
  rcases lt_or_ge (w.bytes o).length (w.bytes i).length with hlt | hle
  · obtain ⟨r, n, hn⟩ := h.returns unfailing
    have hnone := (hrun (n + (w.bytes i).length + 2)).trans
      (copyLoop_stuck ht hne.symm hd.device hlt (Nat.zero_le _) (by omega))
    exact absurd ((hn _ (by omega)).symm.trans hnone) (Option.some_ne_none r)
  · obtain ⟨s, l, hloop, hl, hs0⟩ := copyLoop_copies unfailing.transfer 0 0 (w.bytes o) hne.symm rfl rfl
      (Nat.zero_le _) fun _ => hle
    obtain rfl := hs0 ht
    obtain rfl := hl rfl
    obtain ⟨l, hbefore, hafter, -⟩ := h.copied _ _ ⟨_, fun fuel hf => (hrun fuel).trans (hloop fuel hf)⟩
    rw [contents_ok hs] at hbefore
    rw [contents_setBytes hd.lookup] at hafter
    have hlen := congrArg List.length ((Except.ok.inj hafter).trans (Except.ok.inj hbefore).symm)
    rw [List.length_append, List.length_drop] at hlen
    omega

lemma Copyable.returns (h : Copyable src dst w) (hs : w.lookup src = .ok i) (hdir : w.mounts.isDir i = false)
    {w₁ : Storage} (ho : w.vfsOpen Storage.truncFlags calls.target dst = (.ok o, w₁))
    (hrun : ∀ fuel, copyFile calls fuel src dst w = copyLoop calls.transfer i o fuel 0 0 0 w₁) :
    ∃ s w', CopyReturns calls src dst w (s, w') ∧
      (s = 0 → w'.contents dst = .ok (w.bytes i) ∧ w'.contents src = .ok (w.bytes i)) := by
  obtain ⟨rfl, ht, rfl⟩ | ⟨hd, rfl⟩ | hap := opened_cases hs ho
  · refine ⟨0, _, copyReturns_emptied hrun, fun _ => ?_⟩
    rw [(h i hs hdir).1 ht]
    exact ⟨contents_setBytes ht.lookup [], contents_setBytes hs []⟩
  · by_cases hio : o = i
    · subst hio
      obtain ⟨s, hloop⟩ := copyLoop_self calls.transfer 0 0 (Nat.zero_le (w₁.bytes o).length)
      exact ⟨s, w₁, ⟨_, fun fuel hf => (hrun fuel).trans (hloop fuel hf)⟩,
        fun _ => ⟨contents_ok hd.lookup, contents_ok hs⟩⟩
    · have hlen := (h i hs hdir).2 o hd hio
      obtain ⟨s, l, hloop, hl, -⟩ := copyLoop_copies calls.transfer 0 0 (w₁.bytes o) (Ne.symm hio) rfl rfl
        (Nat.zero_le _) fun _ => hlen.ge
      refine ⟨s, _, ⟨_, fun fuel hf => (hrun fuel).trans (hloop fuel hf)⟩, fun h0 => ?_⟩
      rw [hl h0, ← hlen, List.drop_length, List.append_nil]
      exact ⟨contents_setBytes hd.lookup _, contents_setBytes_of_ne hs (Ne.symm hio) _⟩
  · obtain ⟨s, l, hloop, hl, -⟩ := copyLoop_copies calls.transfer 0 0 [] hap.ne hap.kept
      (hap.empty.trans rfl) (Nat.zero_le _) fun hdev => absurd (hap.device.symm.trans hdev) Bool.false_ne_true
    refine ⟨s, _, ⟨_, fun fuel hf => (hrun fuel).trans (hloop fuel hf)⟩, fun h0 => ?_⟩
    rw [hl h0, List.drop_nil, List.append_nil]
    exact ⟨contents_setBytes hap.target _, hap.kept ▸ contents_setBytes_of_ne hap.source hap.ne _⟩

theorem copyFile_copies (w : Storage) (src dst : CString) : Copies src dst w ↔ Copyable src dst w := by
  refine ⟨fun h i hs hdir => ⟨h.empty hs, fun o hd hne => h.length_eq hs hdir hd hne⟩, fun h => ⟨fun calls => ?_, ?_⟩⟩
  · obtain ⟨w', hret⟩ | ⟨i, o, w₁, hs, hdir, ho, hrun⟩ := copyFile_cases w src dst calls
    · exact ⟨_, hret⟩
    · obtain ⟨s, w', hret, -⟩ := h.returns hs hdir ho hrun
      exact ⟨_, hret⟩
  · intro calls w' hret
    obtain ⟨w'', hone⟩ | ⟨i, o, w₁, hs, hdir, ho, hrun⟩ := copyFile_cases w src dst calls
    · exact absurd (Prod.mk.inj (hret.unique hone)).1 Nat.zero_ne_one
    · obtain ⟨s, w'', hret', hcopied⟩ := h.returns hs hdir ho hrun
      cases hret.unique hret'
      exact ⟨w.bytes i, contents_ok hs, hcopied rfl⟩

def fileAndDevice : FsTree where
  root := 0
  isDir n := n = 0
  find d a := if d = 0 ∧ a = [97] then some 1 else if d = 0 ∧ a = [100] then some 2 else none
  parent _ := none
  root_isDir := rfl
  root_parent := rfl
  parent_find d a n h hd := by
    obtain rfl : n = 0 := of_decide_eq_true hd
    split_ifs at h <;> exact absurd (Option.some.inj h) (by decide)

def fileAndDeviceMounts : Mounts := ⟨fun _ => fileAndDevice, 1, fun _ => none, fun _ => none, [⟨0, none⟩]⟩

def fileAndDeviceStorage : Storage where
  mounts := fileAndDeviceMounts
  cwd := ⟨0, 0⟩
  bytes i := List.replicate (if i = ⟨0, 1⟩ then 513 else 512) 65
  device i := decide (i = ⟨0, 2⟩)
  readOnly _ := false
  next _ := 3
  reachable := .init ⟨rfl, fun _ => rfl, fun _ => rfl, rfl⟩
  cwd_isDir := rfl
  isDir_lt i n h := by
    rw [show n = 0 from of_decide_eq_true h]
    exact Nat.zero_lt_succ 2
  find_lt i d a n h := by
    change (if d = 0 ∧ a = [97] then some 1 else if d = 0 ∧ a = [100] then some 2 else none) = some n at h
    split_ifs at h <;> exact Option.some.inj h ▸ by decide
  parent_lt i d n h := nomatch h
  device_lt i h := by
    rw [of_decide_eq_true h]
    decide
  device_isDir i h := by
    rw [of_decide_eq_true h]
    rfl

theorem copyFile_loses : ∃ src dst dst', ¬ Copies src dst fileAndDeviceStorage ∧ ¬ Copies src dst' fileAndDeviceStorage := by
  have hs : fileAndDeviceStorage.lookup ⟨[97], by decide⟩ = .ok ⟨0, 1⟩ := rfl
  refine ⟨⟨[97], by decide⟩, ⟨[46, 47, 97], by decide⟩, ⟨[100], by decide⟩, fun h => ?_, fun h => ?_⟩
  · have ht : fileAndDeviceStorage.Truncates ⟨[46, 47, 97], by decide⟩ ⟨0, 1⟩ :=
      ⟨rfl, rfl, ⟨⟨0, 0⟩, [97], rfl, rfl⟩, rfl⟩
    exact absurd (h.empty hs ht) (List.cons_ne_nil _ _)
  · have hd : fileAndDeviceStorage.OpensDevice ⟨[100], by decide⟩ ⟨0, 2⟩ := ⟨rfl, rfl, ⟨⟨0, 0⟩, [100], rfl, rfl⟩⟩
    have hlen : (List.replicate 512 (65 : UInt8)).length = (List.replicate 513 (65 : UInt8)).length :=
      h.length_eq hs rfl hd (by decide)
    rw [List.length_replicate, List.length_replicate] at hlen
    cases hlen

end File

end MyOS.User
