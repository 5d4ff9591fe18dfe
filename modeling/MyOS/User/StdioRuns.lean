import MyOS.User.Stdio

/-! The buffered streams behave as the calls without a buffer do. -/

namespace MyOS.User

open Library

namespace FileAt

variable {d : FileAt} {l l' : List UInt8} {n k : ℕ}

@[simp]
lemma skip_zero : d.skip 0 = d := rfl

lemma skip_skip : (d.skip n).skip k = d.skip (n + k) := by
  rw [skip, skip, skip, Nat.add_assoc]

lemma put_nil (h : d.pos ≤ d.size) : d.put [] = d := by
  rw [put, Bytes.store_nil, List.length_nil, Nat.add_zero, Nat.max_eq_left h]

lemma put_put : (d.put l).put l' = d.put (l ++ l') := by
  simp only [put, Bytes.store_append, List.length_append, mk.injEq, true_and]
  omega

lemma pos_le_put : (d.put l).pos ≤ (d.put l).size := Nat.le_max_right _ _

lemma ahead_of_le (h : d.size ≤ d.pos) : d.ahead n = [] := by
  rw [ahead, Nat.sub_eq_zero_of_le h, Nat.min_zero]
  rfl

lemma ahead_zero : d.ahead 0 = [] := by
  rw [ahead, Nat.zero_min]
  rfl

lemma length_ahead : (d.ahead n).length = min n (d.size - d.pos) := Bytes.length_load

lemma le_of_ahead (h : d.ahead (n + 1) = []) : d.size ≤ d.pos := by
  have hlen := length_ahead (d := d) (n := n + 1)
  rw [h, List.length_nil] at hlen
  omega

lemma ahead_add (hk : d.pos + k ≤ d.size) (hn : k ≤ n) :
    d.ahead n = Bytes.load d.data d.pos k ++ (d.skip k).ahead (n - k) := by
  have hsplit : min n (d.size - d.pos) = k + min (n - k) (d.size - (d.pos + k)) := by omega
  rw [ahead, hsplit, ← Bytes.load_append]
  rfl

lemma ahead_skip (hn : (d.ahead k).length ≤ n) : d.ahead n = d.ahead k ++ (d.skip (d.ahead k).length).ahead
    (n - (d.ahead k).length) := by
  by_cases h : d.size ≤ d.pos
  · rw [ahead_of_le h, ahead_of_le h, List.nil_append, List.length_nil, skip_zero, ahead_of_le h]
  · have hk := length_ahead (d := d) (n := k)
    rw [ahead_add (k := (d.ahead k).length) (by omega) hn, hk]
    rfl

lemma ahead_one (h : d.pos < d.size) : d.ahead 1 = [d.data d.pos] := by
  rw [ahead, Nat.min_eq_left (by omega)]
  rfl

lemma ahead_succ (h : d.pos < d.size) : d.ahead (n + 1) = d.data d.pos :: (d.skip 1).ahead n :=
  ahead_add (k := 1) h (Nat.succ_le_succ (Nat.zero_le n))

end FileAt

namespace Stream

variable {o : Descriptor} {s s' : Stream} {d : FileAt} {l : List UInt8} {n k left : ℕ} {c : UInt8}

def pending (s : Stream) : List UInt8 := Bytes.load s.buf 0 s.wlen

/-- The stream is at the position of `d`: the kernel is behind by what is to be written, or ahead by what was read. -/
structure Follows (s : Stream) (d : FileAt) : Prop where
  inFile : s.file.pos ≤ s.file.size
  whole : d.skip (s.rlen - s.rpos) = s.file.put s.pending
  read : s.rpos ≤ s.rlen
  exclusive : s.rlen ≠ 0 → s.wlen = 0
  buffered : Bytes.load s.buf s.rpos (s.rlen - s.rpos) = Bytes.load d.data d.pos (s.rlen - s.rpos)
  eof : s.eof = true → s.file.size = s.file.pos ∧ s.rpos = s.rlen

lemma pending_nil (h : s.wlen = 0) : s.pending = [] := by
  rw [pending, h]
  rfl

lemma Follows.file_eq (h : s.Follows d) (hw : s.wlen = 0) (hr : ¬ s.rpos < s.rlen) : s.file = d := by
  have hwhole := h.whole
  rw [Nat.sub_eq_zero_of_le (not_lt.1 hr), FileAt.skip_zero, pending_nil hw, FileAt.put_nil h.inFile] at hwhole
  exact hwhole.symm

lemma drop_length_take : l.drop (l.take n).length = l.drop n := by
  rw [List.length_take]
  rcases le_total n l.length with h | h
  · rw [Nat.min_eq_left h]
  · rw [Nat.min_eq_right h, List.drop_length, List.drop_eq_nil_of_le h]

lemma Follows.pos_le (h : s.Follows d) : d.pos ≤ d.size := by
  have hle : (d.skip (s.rlen - s.rpos)).pos ≤ (d.skip (s.rlen - s.rpos)).size := h.whole ▸ FileAt.pos_le_put
  exact (Nat.le_add_right _ _).trans hle

lemma writeAll_file (h : s.file.pos ≤ s.file.size) (hs : s.writeAll o l = some s') :
    ∃ call, s' = { s with file := s.file.put l, call } := by
  induction hk : l.length using Nat.strong_induction_on generalizing l s with
  | _ k ih =>
    subst hk
    rw [writeAll] at hs
    by_cases hl : l = []
    · rw [dif_pos hl] at hs
      obtain rfl := Option.some.inj hs
      rw [hl, FileAt.put_nil h]
      exact ⟨s.call, rfl⟩
    rw [dif_neg hl] at hs
    split at hs
    · cases hs
    · rename_i n s₁ hw
      have hn : 0 < n := sysWrite_pos o _ hw hl
      have hpos := List.length_pos_iff.2 hl
      rw [sysWrite] at hw
      split_ifs at hw
      obtain ⟨k, -, hk⟩ := Option.map_eq_some_iff.1 hw
      cases hk
      obtain ⟨call, rfl⟩ := ih _ (by rw [List.length_drop]; omega) FileAt.pos_le_put hs rfl
      refine ⟨call, ?_⟩
      rw [FileAt.put_put, drop_length_take, List.take_append_drop]

lemma flushWrite_follows (h : s.Follows d) (hs : s.flushWrite o = some s') :
    s'.Follows d ∧ s'.wlen = 0 ∧ s'.rpos = s.rpos ∧ s'.rlen = s.rlen ∧ s'.eof = s.eof := by
  obtain ⟨s₁, hw, rfl⟩ := Option.map_eq_some_iff.1 hs
  obtain ⟨call, rfl⟩ := writeAll_file h.inFile hw
  refine ⟨⟨FileAt.pos_le_put, ?_, h.read, fun _ => rfl, h.buffered, fun he => ⟨?_, (h.eof he).2⟩⟩, rfl, rfl, rfl, rfl⟩
  · rw [pending_nil rfl, FileAt.put_nil FileAt.pos_le_put]
    exact h.whole
  · have hend := (h.eof he).1
    exact Nat.max_eq_right (hend ▸ Nat.le_add_right _ _)

lemma flushPending_follows (h : s.Follows d) (hs : (if s.wlen ≠ 0 then s.flushWrite o else some s) = some s') :
    s'.Follows d ∧ s'.wlen = 0 ∧ s'.rpos = s.rpos ∧ s'.rlen = s.rlen ∧ s'.eof = s.eof := by
  split_ifs at hs with hw
  · exact flushWrite_follows h hs
  · cases hs
    exact ⟨h, not_not.1 hw, rfl, rfl, rfl⟩

lemma dropRead_follows (h : s.Follows d) (hs : s.dropRead = some s') :
    s'.Follows d ∧ s'.rlen = 0 := by
  obtain ⟨s₁, hseek, rfl⟩ := Option.map_eq_some_iff.1 hs
  split_ifs at hseek with hr
  · have hw := h.exclusive (Nat.ne_zero_of_lt hr)
    have hwhole := h.whole
    rw [pending_nil hw, FileAt.put_nil h.inFile] at hwhole
    rw [seekBack] at hseek
    split_ifs at hseek with hpos
    cases hseek
    have hfile : ({ s.file with pos := s.file.pos - (s.rlen - s.rpos) } : FileAt) = d := by
      rw [← hwhole, FileAt.skip, Nat.add_sub_cancel]
    have hle : s.file.pos - (s.rlen - s.rpos) ≤ s.file.size := (Nat.sub_le _ _).trans h.inFile
    refine ⟨⟨hle, ?_, le_rfl, fun h0 => absurd rfl h0, rfl, fun he => ?_⟩, rfl⟩
    · show d = FileAt.put { s.file with pos := s.file.pos - (s.rlen - s.rpos) } s.pending
      rw [pending_nil hw, FileAt.put_nil hle]
      exact hfile.symm
    · exact absurd hr ((h.eof he).2 ▸ lt_irrefl _)
  · cases hseek
    have hwhole := h.whole
    rw [Nat.sub_eq_zero_of_le (not_lt.1 hr)] at hwhole
    exact ⟨⟨h.inFile, hwhole, le_rfl, fun h0 => absurd rfl h0, rfl, fun he => ⟨(h.eof he).1, rfl⟩⟩, rfl⟩

lemma dropPending_follows (h : s.Follows d) (hs : (if s.rlen ≠ 0 then s.dropRead else some s) = some s') :
    s'.Follows d ∧ s'.rlen = 0 := by
  split_ifs at hs with hr
  · exact dropRead_follows h hs
  · cases hs
    exact ⟨h, not_not.1 hr⟩

lemma fflush_follows (h : s.Follows d) (hs : s.fflush o = some s') :
    s'.Follows d ∧ s'.wlen = 0 ∧ s'.rlen = 0 := by
  obtain ⟨s₁, hr, hw⟩ := Option.bind_eq_some_iff.1 hs
  obtain ⟨h₁, hrlen⟩ := dropPending_follows h hr
  obtain ⟨hf, hz, -, hl, -⟩ := flushPending_follows h₁ hw
  exact ⟨hf, hz, hl.trans hrlen⟩

lemma Follows.push (h : s.Follows d) (hr : s.rlen = 0) :
    Follows { s with buf := Bytes.store s.buf s.wlen [c], wlen := s.wlen + 1 } (d.put [c]) := by
  have hread : s.rlen - s.rpos = 0 := by rw [hr, Nat.zero_sub]
  refine ⟨h.inFile, ?_, h.read, fun h0 => absurd hr h0, ?_, h.eof⟩
  · have hwhole := h.whole
    have hpending : Bytes.load (Bytes.store s.buf s.wlen [c]) 0 (s.wlen + 1) = s.pending ++ [c] := by
      have hlast : Bytes.load (Bytes.store s.buf s.wlen [c]) s.wlen 1 = [c] := Bytes.load_store_self rfl
      rw [← Bytes.load_append, Nat.zero_add, hlast]
      refine congrArg (· ++ [c]) (Bytes.load_congr fun x _ hx => Bytes.store_of_not_mem ?_)
      omega
    rw [hread, FileAt.skip_zero] at hwhole
    show (d.put [c]).skip (s.rlen - s.rpos) = s.file.put (Bytes.load (Bytes.store s.buf s.wlen [c]) 0 (s.wlen + 1))
    rw [hread, FileAt.skip_zero, hwhole, hpending, FileAt.put_put]
  · show Bytes.load _ s.rpos (s.rlen - s.rpos) = Bytes.load _ _ (s.rlen - s.rpos)
    rw [hread]
    rfl

lemma putByte_follows (h : s.Follows d) (hs : s.putByte o c = some s') : s'.Follows (d.put [c]) := by
  obtain ⟨s₁, hr, hs⟩ := Option.bind_eq_some_iff.1 hs
  have h₁ := dropPending_follows h hr
  obtain ⟨s₂, hw, hs⟩ := Option.bind_eq_some_iff.1 hs
  have h₂ : s₂.Follows d ∧ s₂.rlen = 0 := by
    split_ifs at hw
    · obtain ⟨hf, -, -, hl, -⟩ := flushWrite_follows h₁.1 hw
      exact ⟨hf, hl.trans h₁.2⟩
    · cases hw
      exact h₁
  have h₃ := h₂.1.push (c := c) h₂.2
  dsimp only at hs
  split_ifs at hs
  · exact (flushWrite_follows h₃ hs).1
  · cases hs
    exact h₃

lemma foldlM_putByte_follows (h : s.Follows d) (hs : l.foldlM (fun s c => putByte o s c) s = some s') :
    s'.Follows (d.put l) := by
  induction l generalizing s d with
  | nil =>
    cases hs
    rw [FileAt.put_nil h.pos_le]
    exact h
  | cons c l ih =>
    rw [List.foldlM_cons] at hs
    obtain ⟨s₁, hc, hrest⟩ := Option.bind_eq_some_iff.1 hs
    have hput := ih (putByte_follows h hc) hrest
    rwa [FileAt.put_put] at hput

lemma fwrite_follows (h : s.Follows d) (hs : s.fwrite o l = some s') : s'.Follows (d.put l) := by
  rw [fwrite] at hs
  split_ifs at hs with hl hlong
  · cases hs
    rw [hl, FileAt.put_nil h.pos_le]
    exact h
  · obtain ⟨s₁, hflush, hw⟩ := Option.bind_eq_some_iff.1 hs
    obtain ⟨h₁, hwz, hrz⟩ := fflush_follows h hflush
    have hunread : s₁.rlen - s₁.rpos = 0 := by rw [hrz, Nat.zero_sub]
    have hfile : s₁.file = d := h₁.file_eq hwz (by rw [hrz]; exact Nat.not_lt_zero _)
    obtain ⟨call, rfl⟩ := writeAll_file h₁.inFile hw
    subst hfile
    refine ⟨FileAt.pos_le_put, ?_, h₁.read, h₁.exclusive, ?_, fun he => ⟨?_, (h₁.eof he).2⟩⟩
    · show (s₁.file.put l).skip (s₁.rlen - s₁.rpos) = (s₁.file.put l).put s₁.pending
      rw [hunread, pending_nil hwz, FileAt.put_nil FileAt.pos_le_put]
      rfl
    · show Bytes.load _ s₁.rpos (s₁.rlen - s₁.rpos) = Bytes.load _ _ (s₁.rlen - s₁.rpos)
      rw [hunread]
      rfl
    · exact Nat.max_eq_right ((h₁.eof he).1 ▸ Nat.le_add_right _ _)
  · exact foldlM_putByte_follows h hs

lemma Follows.take (h : s.Follows d) (hk : k ≤ s.rlen - s.rpos) :
    Follows { s with rpos := s.rpos + k } (d.skip k) ∧ Bytes.load s.buf s.rpos k = Bytes.load d.data d.pos k ∧
      d.pos + k ≤ d.size := by
  have hle : (d.skip (s.rlen - s.rpos)).pos ≤ (d.skip (s.rlen - s.rpos)).size := h.whole ▸ FileAt.pos_le_put
  have hread := h.read
  have hsub : s.rlen - (s.rpos + k) = s.rlen - s.rpos - k := by omega
  refine ⟨⟨h.inFile, ?_, by show s.rpos + k ≤ s.rlen; omega, h.exclusive, ?_, fun he => ⟨(h.eof he).1, ?_⟩⟩, ?_, ?_⟩
  · show (d.skip k).skip (s.rlen - (s.rpos + k)) = s.file.put s.pending
    rw [← h.whole, FileAt.skip_skip, hsub, Nat.add_sub_cancel' hk]
  · have hdrop := congrArg (List.drop k) h.buffered
    rw [Bytes.load_drop hk, Bytes.load_drop hk] at hdrop
    show Bytes.load s.buf (s.rpos + k) (s.rlen - (s.rpos + k)) = Bytes.load d.data (d.pos + k) (s.rlen - (s.rpos + k))
    rw [hsub, hdrop]
  · have hend := (h.eof he).2
    show s.rpos + k = s.rlen
    omega
  · have htake := congrArg (List.take k) h.buffered
    rwa [Bytes.load_take hk, Bytes.load_take hk] at htake
  · exact (Nat.add_le_add_left hk _).trans hle

lemma Follows.setEof (h : s.Follows d) (hr : ¬ s.rpos < s.rlen) (hend : s.file.size ≤ s.file.pos) :
    Follows { s with eof := true } d ∧ d.size ≤ d.pos := by
  have hwhole := h.whole
  rw [Nat.sub_eq_zero_of_le (not_lt.1 hr), FileAt.skip_zero] at hwhole
  refine ⟨⟨h.inFile, h.whole, h.read, h.exclusive, h.buffered, fun _ =>
    ⟨le_antisymm hend h.inFile, le_antisymm h.read (not_lt.1 hr)⟩⟩, ?_⟩
  rw [hwhole]
  exact max_le (hend.trans (Nat.le_add_right _ _)) le_rfl

lemma sysRead_follows (h : s.Follows d) (hc : s.wlen = 0 ∨ s.file.size ≤ s.file.pos) (hr : ¬ s.rpos < s.rlen)
    (hs : s.sysRead o (n + 1) = some (l, s')) : ∃ call k, s' = { s with file := s.file.skip l.length, call } ∧
      l = d.ahead k ∧ l.length ≤ n + 1 ∧ s'.Follows (d.skip l.length) ∧ (l = [] ↔ s.file.size ≤ s.file.pos) := by
  rw [sysRead] at hs
  split_ifs at hs
  obtain ⟨k, -, hk⟩ := Option.map_eq_some_iff.1 hs
  cases hk
  have hmin : min (k + 1) (n + 1) = min k n + 1 := Nat.succ_min_succ k n
  have hlen := FileAt.length_ahead (d := s.file) (n := min k n + 1)
  refine ⟨s.call + 1, min k n + 1, rfl, ?_⟩
  rw [hmin]
  by_cases hend : s.file.size ≤ s.file.pos
  · have hd := (h.setEof hr hend).2
    rw [FileAt.ahead_of_le hend, FileAt.ahead_of_le hd]
    exact ⟨rfl, Nat.zero_le _, ⟨h.inFile, h.whole, h.read, h.exclusive, h.buffered, h.eof⟩,
      iff_of_true rfl hend⟩
  have hw := hc.resolve_right hend
  have hfile := h.file_eq hw hr
  have hunread : s.rlen - s.rpos = 0 := Nat.sub_eq_zero_of_le (not_lt.1 hr)
  subst hfile
  have hle : s.file.pos + (s.file.ahead (min k n + 1)).length ≤ s.file.size := by omega
  refine ⟨rfl, by omega, ⟨hle, ?_, h.read, h.exclusive, ?_, fun he => absurd (h.eof he).1.le hend⟩,
    iff_of_false (fun hnil => hend (FileAt.le_of_ahead hnil)) hend⟩
  · show (s.file.skip _).skip (s.rlen - s.rpos) = (s.file.skip _).put s.pending
    rw [hunread, pending_nil hw, FileAt.put_nil hle]
    rfl
  · show Bytes.load _ s.rpos (s.rlen - s.rpos) = Bytes.load _ _ (s.rlen - s.rpos)
    rw [hunread]
    rfl

lemma refill_follows (h : s.Follows d) (hr : ¬ s.rpos < s.rlen) {more : Bool} (hs : s.refill o = some (more, s')) :
    s'.Follows d ∧ (more = false → d.size ≤ d.pos) := by
  rw [refill] at hs
  by_cases he : s.eof = true
  · rw [if_pos he] at hs
    cases hs
    exact ⟨h, fun _ => (h.setEof hr (h.eof he).1.le).2⟩
  rw [if_neg he] at hs
  obtain ⟨s₁, hflush, hs⟩ := Option.bind_eq_some_iff.1 hs
  obtain ⟨h₁, hw, hrpos, hrlen, heof⟩ := flushPending_follows h hflush
  obtain ⟨⟨l, s₂⟩, hread, hs⟩ := Option.map_eq_some_iff.1 hs
  rw [← hrpos, ← hrlen] at hr
  rw [← heof] at he
  obtain ⟨call, k, rfl, hl, -, h₂, hend⟩ := sysRead_follows h₁ (.inl hw) hr hread
  have hfile := h₂.file_eq hw hr
  dsimp only at hs
  split_ifs at hs with hempty
  · cases hs
    rw [hempty] at h₂ hfile ⊢
    have hstop := h₂.setEof hr (hend.1 hempty)
    exact ⟨hstop.1, fun _ => hstop.2⟩
  · cases hs
    refine ⟨⟨h₂.inFile, ?_, Nat.zero_le _, fun _ => hw, ?_, fun h => absurd h he⟩, by rintro ⟨⟩⟩
    · show d.skip l.length = FileAt.put (s₁.file.skip l.length) (Bytes.load _ 0 s₁.wlen)
      rw [hw, ← hfile]
      exact (FileAt.put_nil h₂.inFile).symm
    · show Bytes.load (Bytes.store s₁.buf 0 l) 0 l.length = Bytes.load d.data d.pos l.length
      rw [Bytes.load_store_self rfl]
      nth_rewrite 1 [hl]
      rw [hl, FileAt.length_ahead]
      rfl

lemma fgetc_follows (h : s.Follows d) {c : Option UInt8} (hs : s.fgetc o = some (c, s')) :
    c = (d.ahead 1).head? ∧ s'.Follows (d.skip (d.ahead 1).length) := by
  have htake {s : Stream} (h : s.Follows d) (hr : s.rpos < s.rlen) :
      some (s.buf s.rpos) = (d.ahead 1).head? ∧ Follows { s with rpos := s.rpos + 1 } (d.skip (d.ahead 1).length) := by
    obtain ⟨hf, hb, hpos⟩ := h.take (k := 1) (by omega)
    rw [FileAt.ahead_one hpos]
    exact ⟨congrArg List.head? hb, hf⟩
  rw [fgetc] at hs
  split_ifs at hs with hr
  · cases hs
    exact htake h hr
  · obtain ⟨⟨more, s₁⟩, hrefill, hs⟩ := Option.map_eq_some_iff.1 hs
    obtain ⟨h₁, hend⟩ := refill_follows h hr hrefill
    cases more with
    | false =>
      cases hs
      rw [FileAt.ahead_of_le (hend rfl)]
      exact ⟨rfl, h₁⟩
    | true =>
      cases hs
      exact htake h₁ (s.refill_more o hrefill)

lemma fgetsLoop_follows {room : ℕ} (h : s.Follows d) (hs : s.fgetsLoop o room = some (l, s')) :
    l = takeLine 10 (d.ahead room) ∧ s'.Follows (d.skip l.length) := by
  induction room generalizing s d l with
  | zero =>
    cases hs
    rw [FileAt.ahead_zero]
    exact ⟨rfl, h⟩
  | succ room ih =>
    rw [fgetsLoop] at hs
    split at hs
    · exact nomatch hs
    · rename_i s₁ hc
      obtain ⟨hnone, h₁⟩ := fgetc_follows h hc
      cases hs
      have hnil : d.ahead 1 = [] := List.head?_eq_none_iff.1 hnone.symm
      rw [hnil] at h₁
      rw [FileAt.ahead_of_le (FileAt.le_of_ahead hnil)]
      exact ⟨rfl, h₁⟩
    · rename_i c s₁ hc
      obtain ⟨hsome, h₁⟩ := fgetc_follows h hc
      have hpos : d.pos < d.size := by
        by_contra hle
        rw [FileAt.ahead_of_le (not_lt.1 hle)] at hsome
        exact nomatch hsome
      rw [FileAt.ahead_one hpos] at hsome h₁
      rw [FileAt.ahead_succ hpos, takeLine, ← Option.some.inj hsome]
      split_ifs at hs ⊢
      · cases hs
        exact ⟨rfl, h₁⟩
      · obtain ⟨⟨l', s₂⟩, hrest, hs⟩ := Option.map_eq_some_iff.1 hs
        cases hs
        obtain ⟨rfl, h₂⟩ := ih h₁ hrest
        rw [FileAt.skip_skip] at h₂
        exact ⟨rfl, by rw [List.length_cons, Nat.add_comm]; exact h₂⟩

lemma fread_follows (h : s.Follows d) (hc : s.wlen = 0 ∨ left < bufSize ∨ s.file.size ≤ s.file.pos)
    (hs : s.fread o left = some (l, s')) : l = d.ahead left ∧ s'.Follows (d.skip l.length) := by
  induction left, s using Stream.fread.induct o generalizing d l s' with
  | case1 s =>
    rw [fread, dif_pos rfl] at hs
    cases hs
    rw [FileAt.ahead_zero]
    exact ⟨rfl, h⟩
  | case2 left s hne hr k =>
    rename_i ih
    rw [fread, dif_neg hne, dif_pos hr] at hs
    obtain ⟨⟨l', s₁⟩, hrest, hs⟩ := Option.map_eq_some_iff.1 hs
    cases hs
    obtain ⟨h₁, hb, hpos⟩ := h.take (Nat.min_le_left (s.rlen - s.rpos) left)
    obtain ⟨rfl, h₂⟩ := ih h₁ (.inl (h.exclusive (Nat.ne_zero_of_lt hr))) hrest
    rw [FileAt.skip_skip] at h₂
    refine ⟨?_, ?_⟩
    · rw [FileAt.ahead_add hpos (Nat.min_le_right _ _), ← hb]
    · rw [List.length_append, Bytes.length_load]
      exact h₂
  | case3 left s hne hr hlong hread =>
    rw [fread, dif_neg hne, dif_neg hr, if_pos hlong, hread] at hs
    exact nomatch hs
  | case4 left s hne hr hlong r hread =>
    rw [fread, dif_neg hne, dif_neg hr, if_pos hlong, hread] at hs
    cases hs
    obtain ⟨left, rfl⟩ := Nat.exists_eq_succ_of_ne_zero hne
    obtain ⟨call, k, rfl, -, -, h₁, hend⟩ := sysRead_follows h (hc.imp_right fun h => h.resolve_left hlong.not_gt) hr hread
    have hstop := h₁.setEof hr (hend.1 rfl)
    have hle : d.size ≤ d.pos := hstop.2
    rw [FileAt.ahead_of_le hle]
    exact ⟨rfl, hstop.1⟩
  | case5 left s hne hr hlong l₁ r hread hl ih =>
    rw [fread, dif_neg hne, dif_neg hr, if_pos hlong, hread] at hs
    dsimp only at hs
    rw [dif_neg hl] at hs
    obtain ⟨⟨l', s₁⟩, hrest, hs⟩ := Option.map_eq_some_iff.1 hs
    cases hs
    obtain ⟨left, rfl⟩ := Nat.exists_eq_succ_of_ne_zero hne
    obtain ⟨call, k, rfl, hl₁, hle, h₁, hend⟩ :=
      sysRead_follows h (hc.imp_right fun h => h.resolve_left hlong.not_gt) hr hread
    have hw : s.wlen = 0 := (hc.resolve_right fun h => hl (hend.2 (h.resolve_left hlong.not_gt)))
    obtain ⟨rfl, h₂⟩ := ih h₁ (.inl hw) hrest
    refine ⟨?_, ?_⟩
    · rw [hl₁] at hle ⊢
      exact (FileAt.ahead_skip hle).symm
    · rw [List.length_append, ← FileAt.skip_skip]
      exact h₂
  | case6 left s hne hr hlong hrefill =>
    rw [fread, dif_neg hne, dif_neg hr, if_neg hlong] at hs
    split at hs
    · exact nomatch hs
    · rename_i heq
      exact nomatch heq.symm.trans hrefill
    · rename_i heq
      exact nomatch heq.symm.trans hrefill
  | case7 left s hne hr hlong r hrefill =>
    rw [fread, dif_neg hne, dif_neg hr, if_neg hlong] at hs
    obtain ⟨h₁, hend⟩ := refill_follows h hr hrefill
    split at hs
    · exact nomatch hs
    · rename_i heq
      obtain rfl := (Prod.mk.inj (Option.some.inj (heq.symm.trans hrefill))).2
      cases hs
      rw [FileAt.ahead_of_le (hend rfl)]
      exact ⟨rfl, h₁⟩
    · rename_i heq
      exact nomatch heq.symm.trans hrefill
  | case8 left s hne hr hlong r hrefill ih =>
    rw [fread, dif_neg hne, dif_neg hr, if_neg hlong] at hs
    split at hs
    · exact nomatch hs
    · rename_i heq
      exact nomatch heq.symm.trans hrefill
    · rename_i heq
      obtain rfl := (Prod.mk.inj (Option.some.inj (heq.symm.trans hrefill))).2
      exact ih (refill_follows h hr hrefill).1 (.inr (.inl (not_le.1 hlong))) hs

lemma step_follows (h : s.Follows d) {op : StreamOp} (hc : s.Careful op) {a : Answer}
    (hs : s.step o op = some (a, s')) : a = (d.step op).1 ∧ s'.Follows (d.step op).2 := by
  cases op with
  | fputc c =>
    obtain ⟨s₁, hput, hs⟩ := Option.map_eq_some_iff.1 hs
    cases hs
    exact ⟨rfl, putByte_follows h hput⟩
  | fputs l | fwrite l =>
    obtain ⟨s₁, hput, hs⟩ := Option.map_eq_some_iff.1 hs
    cases hs
    exact ⟨rfl, fwrite_follows h hput⟩
  | fgetc =>
    obtain ⟨⟨c, s₁⟩, hget, hs⟩ := Option.map_eq_some_iff.1 hs
    cases hs
    obtain ⟨rfl, h₁⟩ := fgetc_follows h hget
    exact ⟨rfl, h₁⟩
  | fgets size =>
    obtain ⟨⟨c, s₁⟩, hget, hs⟩ := Option.map_eq_some_iff.1 hs
    cases hs
    obtain ⟨⟨l, s₂⟩, hloop, hget⟩ := Option.map_eq_some_iff.1 hget
    cases hget
    obtain ⟨rfl, h₁⟩ := fgetsLoop_follows h hloop
    exact ⟨rfl, h₁⟩
  | fread n =>
    obtain ⟨⟨l, s₁⟩, hget, hs⟩ := Option.map_eq_some_iff.1 hs
    cases hs
    obtain ⟨rfl, h₁⟩ := fread_follows h hc hget
    exact ⟨rfl, h₁⟩
  | fflush =>
    obtain ⟨s₁, hflush, hs⟩ := Option.map_eq_some_iff.1 hs
    cases hs
    exact ⟨rfl, (fflush_follows h hflush).1⟩

lemma run_follows {ops : List StreamOp} {as : List Answer} {file : FileAt} (h : s.Follows d)
    (hc : AllCareful o ops s) (hs : s.run o ops = some (as, file)) : (as, file) = d.run ops := by
  induction ops generalizing s d as with
  | nil =>
    obtain ⟨file', hclose, hs⟩ := Option.map_eq_some_iff.1 hs
    cases hs
    obtain ⟨s₁, hflush, rfl⟩ := Option.map_eq_some_iff.1 hclose
    obtain ⟨h₁, hw, hr⟩ := fflush_follows h hflush
    rw [h₁.file_eq hw (by rw [hr]; exact Nat.not_lt_zero _)]
    rfl
  | cons op ops ih =>
    obtain ⟨⟨a, s₁⟩, hstep, hs⟩ := Option.bind_eq_some_iff.1 hs
    obtain ⟨⟨as', file'⟩, hrun, hs⟩ := Option.map_eq_some_iff.1 hs
    cases hs
    obtain ⟨rfl, h₁⟩ := step_follows h hc.1 hstep
    have hrest := ih h₁ (hc.2 _ _ hstep) hrun
    rw [FileAt.run, ← hrest]

lemma flushWrite_one (hp : s.pending = [c]) (ho : o.canWrite = true) (ht : o.transfer s.call = some k) :
    s.flushWrite o = some { s with file := s.file.put [c], call := s.call + 1, wlen := 0 } := by
  have hwrite : s.sysWrite o [c] = some (1, { s with file := s.file.put [c], call := s.call + 1 }) := by
    rw [sysWrite, if_pos ho, ht, Option.map_some, List.take_of_length_le (Nat.succ_le_succ (Nat.zero_le k))]
    rfl
  have hall : s.writeAll o [c] = some { s with file := s.file.put [c], call := s.call + 1 } := by
    rw [writeAll, dif_neg (List.cons_ne_nil c [])]
    split
    · rename_i h
      exact nomatch h.symm.trans hwrite
    · rename_i h
      cases h.symm.trans hwrite
      rw [writeAll]
      exact dif_pos rfl
  rw [flushWrite, ← pending, hp, hall]
  rfl

lemma follows_start (h : d.pos ≤ d.size) : Follows { file := d } d where
  inFile := h
  whole := (FileAt.put_nil h).symm
  read := le_rfl
  exclusive h0 := absurd rfl h0
  buffered := rfl
  eof he := nomatch he

end Stream

theorem run_fopen (m : Mode) (transfer : ℕ → Option ℕ) (data : ℕ → UInt8) (size : ℕ) (ops : List StreamOp)
    (hc : Stream.AllCareful (m.descriptor transfer) ops (fopen m data size)) (as : List Answer) (file : FileAt)
    (h : (fopen m data size).run (m.descriptor transfer) ops = some (as, file)) :
    as = ((m.file data size).run ops).1 ∧ file.contents = ((m.file data size).run ops).2.contents := by
  have hrun := Stream.run_follows (Stream.follows_start (Nat.zero_le _)) hc h
  rw [← hrun]
  exact ⟨rfl, rfl⟩

lemma fread_end {o : Descriptor} {s r : Stream} {n : ℕ} (h : s.refill o = some (false, r)) (hn : n ≠ 0)
    (hs : ¬ s.rpos < s.rlen) (hlt : n < bufSize) : s.fread o n = some ([], r) := by
  rw [Stream.fread, dif_neg hn, dif_neg hs, if_neg (not_le.2 hlt)]
  split
  · rename_i hf
    cases hf.symm.trans h
  · rename_i hf
    rw [(Prod.mk.inj (Option.some.inj (hf.symm.trans h))).2]
  · rename_i hf
    cases hf.symm.trans h

/-- On a file of two bytes: the first one is written over, and a large `fread` reads the other one. -/
theorem run_fopen_inTurn : ∃ as file, (fopen .rPlus (fun _ => 65) 2).run (Mode.rPlus.descriptor fun _ => some 4095)
      [.fputc 66, .fflush, .fread 4096, .fputc 67] = some (as, file) ∧
    as = [.done, .done, .bytes [65], .done] ∧ file.contents = [66, 65, 67] ∧
    as = ((Mode.rPlus.file (fun _ => 65) 2).run [.fputc 66, .fflush, .fread 4096, .fputc 67]).1 ∧
    file.contents = ((Mode.rPlus.file (fun _ => 65) 2).run [.fputc 66, .fflush, .fread 4096, .fputc 67]).2.contents := by
  set o := Mode.rPlus.descriptor fun _ => some 4095
  let s : Stream := { fopen .rPlus (fun _ => 65) 2 with buf := Bytes.store (fun _ => 0) 0 [66], wlen := 1 }
  let s₁ : Stream := { s with file := s.file.put [66], call := 1, wlen := 0 }
  let s₂ : Stream := { s₁ with file := s₁.file.skip 1, call := 3, eof := true }
  let s₃ : Stream := { s₂ with buf := Bytes.store s₂.buf 0 [67], wlen := 1 }
  have hput : (fopen .rPlus (fun _ => 65) 2).putByte o 66 = some s := rfl
  have hflush : s.fflush o = some s₁ := Stream.flushWrite_one rfl rfl rfl
  have hread : s₁.sysRead o 4096 = some ([65], { s₁ with file := s₁.file.skip 1, call := 2 }) := rfl
  have hrest : Stream.fread o 4095 { s₁ with file := s₁.file.skip 1, call := 2 } = some ([], s₂) :=
    fread_end rfl (by decide) (by decide) (by decide)
  have hfread : s₁.fread o 4096 = some ([65], s₂) := by
    rw [Stream.fread, dif_neg (by decide), dif_neg (by decide), if_pos (by decide), hread]
    exact congrArg (Option.map _) hrest
  have hput' : s₂.putByte o 67 = some s₃ := rfl
  have hclose : s₃.fclose o = some (s₃.file.put [67]) := congrArg (Option.map _) (Stream.flushWrite_one rfl rfl rfl)
  have hrun : (fopen .rPlus (fun _ => 65) 2).run o [.fputc 66, .fflush, .fread 4096, .fputc 67] =
      some ([.done, .done, .bytes [65], .done], s₃.file.put [67]) := by
    simp only [Stream.run, Stream.step, hput, hflush, hfread, hput', hclose, Option.map_some, Option.bind_some]
  have hcareful : Stream.AllCareful o [.fputc 66, .fflush, .fread 4096, .fputc 67] (fopen .rPlus (fun _ => 65) 2) := by
    refine ⟨trivial, fun a r hr => ⟨trivial, fun a' r' hr' => ⟨.inl ?_, fun _ _ _ => ⟨trivial, fun _ _ _ => trivial⟩⟩⟩⟩
    rw [Stream.step, hput, Option.map_some, Option.some.injEq] at hr
    rw [← (Prod.mk.inj hr).2, Stream.step, hflush, Option.map_some, Option.some.injEq] at hr'
    rw [← (Prod.mk.inj hr').2]
  exact ⟨_, _, hrun, rfl, by decide, run_fopen .rPlus (fun _ => some 4095) (fun _ => 65) 2 _ hcareful _ _ hrun⟩

theorem run_fopen_fread : ∃ as file, (fopen .rPlus (fun _ => 65) 1).run (Mode.rPlus.descriptor fun _ => some 4095)
      [.fputc 66, .fread 4096] = some (as, file) ∧
    as ≠ ((Mode.rPlus.file (fun _ => 65) 1).run [.fputc 66, .fread 4096]).1 ∧
    file.contents ≠ ((Mode.rPlus.file (fun _ => 65) 1).run [.fputc 66, .fread 4096]).2.contents := by
  set o := Mode.rPlus.descriptor fun _ => some 4095
  let s : Stream := { fopen .rPlus (fun _ => 65) 1 with buf := Bytes.store (fun _ => 0) 0 [66], wlen := 1 }
  have hput : (fopen .rPlus (fun _ => 65) 1).putByte o 66 = some s := rfl
  have hread : s.sysRead o 4096 = some ([65], { s with file := s.file.skip 1, call := 1 }) := rfl
  have hflush : Stream.flushWrite o { s with file := s.file.skip 1, call := 1 } = some
      { s with file := (s.file.skip 1).put [66], call := 2, wlen := 0 } := Stream.flushWrite_one rfl rfl rfl
  have hrefill : Stream.refill o { s with file := s.file.skip 1, call := 1 } = some
      (false, { s with file := (s.file.skip 1).put [66], call := 3, wlen := 0, eof := true }) := by
    rw [Stream.refill, if_neg (by decide), if_pos (by decide), hflush]
    rfl
  have hrest : Stream.fread o 4095 { s with file := s.file.skip 1, call := 1 } = some
      ([], { s with file := (s.file.skip 1).put [66], call := 3, wlen := 0, eof := true }) :=
    fread_end hrefill (by decide) (by decide) (by decide)
  have hfread : s.fread o 4096 = some
      ([65], { s with file := (s.file.skip 1).put [66], call := 3, wlen := 0, eof := true }) := by
    rw [Stream.fread, dif_neg (by decide), dif_neg (by decide), if_pos (by decide), hread]
    exact congrArg (Option.map _) hrest
  have hrun : s.run o [.fread 4096] = some ([.bytes [65]], (s.file.skip 1).put [66]) := by
    rw [Stream.run, Stream.step, hfread]
    rfl
  refine ⟨[.done, .bytes [65]], (s.file.skip 1).put [66], ?_, ?_, ?_⟩
  · rw [Stream.run, Stream.step, hput]
    exact congrArg (Option.map _) hrun
  · decide
  · decide

end MyOS.User
