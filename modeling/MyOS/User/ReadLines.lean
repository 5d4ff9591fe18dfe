import MyOS.User.StdioRuns

/-! Loops that read a file line by line with `fgets`. -/

namespace MyOS.User

open Library

def FileAt.rest (d : FileAt) : List UInt8 := Bytes.load d.data d.pos (d.size - d.pos)

namespace FileAt

def ofBytes (l : List UInt8) : FileAt := ⟨Bytes.store (fun _ => 0) 0 l, l.length, 0⟩

lemma rest_ofBytes {l : List UInt8} : (ofBytes l).rest = l := Bytes.load_store_self rfl

variable {d : FileAt} {n : ℕ}

lemma ahead_eq_take : d.ahead n = d.rest.take n := by
  rcases le_total n (d.size - d.pos) with h | h
  · rw [ahead, rest, Nat.min_eq_left h, Bytes.load_take h]
  · rw [ahead, rest, Nat.min_eq_right h, List.take_of_length_le (by rw [Bytes.length_load]; exact h)]

lemma rest_skip : (d.skip n).rest = d.rest.drop n := by
  rcases le_total n (d.size - d.pos) with h | h
  · rw [rest, rest, Bytes.load_drop h]
    show Bytes.load d.data (d.pos + n) (d.size - (d.pos + n)) = _
    rw [Nat.sub_sub]
  · rw [rest, rest, List.drop_eq_nil_of_le (by rw [Bytes.length_load]; exact h)]
    show Bytes.load d.data (d.pos + n) (d.size - (d.pos + n)) = _
    rw [Nat.sub_eq_zero_of_le (by omega)]
    rfl

end FileAt

def Descriptor.Reads (o : Descriptor) : Prop := o.canRead = true ∧ ∀ i, o.transfer i ≠ none

namespace Stream

variable {σ : Type*} {o : Descriptor} {s : Stream} {d : FileAt} {n room size : ℕ}

def forLines (o : Descriptor) (size : ℕ) (body : σ → List UInt8 → σ) : ℕ → σ → Stream → Option σ
  | 0, _, _ => none
  | fuel + 1, a, s =>
    match s.fgets o size with
    | none => none
    | some (none, _) => some a
    | some (some line, s) => forLines o size body fuel (body a line) s

lemma sysRead_total (ho : o.Reads) : ∃ l s', s.sysRead o n = some (l, s') ∧ s'.wlen = s.wlen := by
  obtain ⟨k, hk⟩ := Option.ne_none_iff_exists'.1 (ho.2 s.call)
  rw [sysRead, if_pos ho.1, hk]
  exact ⟨_, _, rfl, rfl⟩

lemma refill_total (ho : o.Reads) (hw : s.wlen = 0) : ∃ more s', s.refill o = some (more, s') ∧ s'.wlen = 0 := by
  rw [refill]
  split
  · exact ⟨_, _, rfl, hw⟩
  obtain ⟨l, s', hread, hw'⟩ := sysRead_total (s := s) (n := bufSize) ho
  rw [if_neg (not_not.2 hw), Option.bind_some, hread]
  by_cases hl : l = []
  · exact ⟨false, { s' with eof := true }, by simp [hl], hw'.trans hw⟩
  · exact ⟨true, { s' with buf := Bytes.store s'.buf 0 l, rpos := 0, rlen := l.length }, by simp [hl], hw'.trans hw⟩

lemma fgetc_total (ho : o.Reads) (hw : s.wlen = 0) : ∃ c s', s.fgetc o = some (c, s') ∧ s'.wlen = 0 := by
  rw [fgetc]
  split
  · exact ⟨_, _, rfl, hw⟩
  obtain ⟨more, s', hr, hw'⟩ := refill_total ho hw
  rw [hr]
  cases more with
  | false | true => exact ⟨_, _, rfl, hw'⟩

lemma fgetsLoop_total (room : ℕ) (ho : o.Reads) (hw : s.wlen = 0) :
    ∃ l s', s.fgetsLoop o room = some (l, s') ∧ s'.wlen = 0 := by
  induction room generalizing s with
  | zero => exact ⟨[], s, rfl, hw⟩
  | succ room ih =>
    obtain ⟨c, s₁, hc, hw₁⟩ := fgetc_total ho hw
    rw [fgetsLoop, hc]
    cases c with
    | none => exact ⟨[], s₁, rfl, hw₁⟩
    | some c =>
      dsimp only
      split
      · exact ⟨[c], s₁, rfl, hw₁⟩
      · obtain ⟨l, s₂, hl, hw₂⟩ := ih hw₁
        exact ⟨c :: l, s₂, by rw [hl]; rfl, hw₂⟩

lemma forLines_eq (body : σ → List UInt8 → σ) (a : σ) {fuel : ℕ} (ho : o.Reads) (hsize : 1 < size)
    (h : s.Follows d) (hw : s.wlen = 0) (hfuel : d.rest.length < fuel) :
    forLines o size body fuel a s = some ((pieces 10 (size - 1) d.rest).foldl body a) := by
  induction fuel generalizing s d a with
  | zero => exact absurd hfuel (Nat.not_lt_zero _)
  | succ fuel ih =>
    obtain ⟨l, s₁, hloop, hw₁⟩ := fgetsLoop_total (size - 1) ho hw
    obtain ⟨hl, h₁⟩ := fgetsLoop_follows h hloop
    rw [FileAt.ahead_eq_take] at hl
    rw [forLines, fgets, hloop]
    by_cases hrest : d.rest = []
    · rw [hrest, List.take_nil] at hl
      rw [hrest, pieces_nil, hl]
      rfl
    · have hne : l ≠ [] := by
        have hpos : 0 < l.length := by
          rw [hl]
          exact takeLine_pos fun hnil => (List.take_eq_nil_iff.1 hnil).elim (by omega) hrest
        exact List.length_pos_iff.1 hpos
      have hpos := List.length_pos_iff.2 hne
      rw [pieces_cons hrest (by omega), ← hl, List.foldl_cons, ← FileAt.rest_skip]
      simp only [Option.map_some, if_neg hne]
      have hlen := List.length_pos_iff.2 hrest
      refine ih _ h₁ hw₁ ?_
      rw [FileAt.rest_skip, List.length_drop]
      omega

end Stream

end MyOS.User
