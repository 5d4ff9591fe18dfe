import MyOS.User.Edit.Keys
import MyOS.User.ReadLines
import Mathlib.Data.List.DropRight

/-! The editor opens a file and saves it. -/

namespace MyOS.User.Edit

open Library

def strrchr (c : UInt8) : Text → Option Text
  | [] => none
  | d :: s => (strrchr c s).or (if d = c then some (d :: s) else none)

def lineSize : ℕ := 4096

/-- What the calls of `save_file` come to: for `write` an error, or the number of bytes, less one, that are written if
there are so many. -/
structure SaveCalls where
  opened : Bool := true
  write : Option ℕ
  truncated : Bool := true

namespace Editor

/-- One round of the loop of `open_file`: the string in the buffer ends at its first zero. -/
def readRow (e : Editor) (buf : Text) : Editor :=
  e.appendRow ((buf.takeWhile (· != 0)).rdropWhile fun c => c = 10 ∨ c = 13)

def openFile (screenrows : ℕ) (name : Text) (o : Descriptor) (fuel : ℕ) (file : Option Text) : Option Editor :=
  let ext := strrchr 46 name
  let e : Editor := { screenrows, cSyntax := ext = some (ascii ".c") ∨ ext = some (ascii ".h") }
  match file with
  | none => some e
  | some l => Stream.forLines o lineSize readRow fuel e { file := FileAt.ofBytes l }

def saveFile (e : Editor) (calls : SaveCalls) (file : FileAt) : Bool × FileAt :=
  let buf := e.lines.flatMap (· ++ [10])
  match calls.opened, calls.write with
  | true, some k =>
    let file := { file with pos := 0 }.put (buf.take (k + 1))
    if (buf.take (k + 1)).length = buf.length ∧ calls.truncated then (true, { file with size := buf.length })
    else (false, file)
  | _, _ => (false, file)

variable {e : Editor} {file file' : FileAt} {calls : SaveCalls} {input : Text} 

lemma saveFile_contents (h : e.saveFile calls file = (true, file')) :
    file'.contents = e.lines.flatMap (· ++ [10]) := by
  rw [saveFile] at h
  generalize e.lines.flatMap (· ++ [10]) = buf at h
  dsimp only at h
  split at h
  · next k _ _ =>
    split at h
    · next hw =>
      have hb : buf.take (k + 1) = buf := List.take_of_length_le (by
        have hlen := hw.1
        rw [List.length_take] at hlen
        omega)
      rw [← (Prod.mk.inj h).2, hb]
      exact Bytes.load_store_self rfl
    · cases (Prod.mk.inj h).1
  · cases (Prod.mk.inj h).1

lemma saveFile_succeeds {k : ℕ} (h : (e.lines.flatMap (· ++ [10])).length ≤ k + 1) :
    (e.saveFile { write := some k } file).1 = true := by
  rw [saveFile]
  dsimp only
  rw [List.take_of_length_le h, if_pos ⟨rfl, rfl⟩]

lemma lines_foldl_readRow (ps : List Text) : (ps.foldl readRow e).lines =
    e.lines ++ ps.map fun p => (p.takeWhile (· != 0)).rdropWhile fun c => c = 10 ∨ c = 13 := by
  induction ps generalizing e with
  | nil => simp
  | cons p ps ih =>
    have ha : (e.readRow p).lines = e.lines ++ [(p.takeWhile (· != 0)).rdropWhile fun c => c = 10 ∨ c = 13] := by
      rw [readRow, appendRow, lines]
      dsimp only
      rw [map_chars_insertRow _ e.rows e.numrows _ le_rfl, ← length_lines, ← lines, List.insertIdx_length_self]
    rw [List.foldl_cons, ih, ha]
    simp

lemma openFile_eq (screenrows : ℕ) (name : Text) (t : ℕ → ℕ) (input : Text) : ∃ e, (∀ fuel, input.length < fuel →
      openFile screenrows name (Mode.r.descriptor fun i => some (t i)) fuel (some input) = some e) ∧
    e.lines = (pieces 10 (lineSize - 1) input).map
      fun p => (p.takeWhile (· != 0)).rdropWhile fun c => c = 10 ∨ c = 13 := by
  have hreads : (Mode.r.descriptor fun i => some (t i)).Reads := ⟨rfl, fun _ => nofun⟩
  refine ⟨_, fun fuel hf => Stream.forLines_eq readRow _ hreads (by decide)
    (Stream.follows_start (d := FileAt.ofBytes input) (Nat.zero_le _)) rfl (by rwa [FileAt.rest_ofBytes]), ?_⟩
  rw [lines_foldl_readRow, FileAt.rest_ofBytes]
  rfl

end Editor

lemma rdropWhile_of_notMem {s : Text} (h : 10 ∉ s) :
    s.rdropWhile (fun c => c = 10 ∨ c = 13) = s.rdropWhile fun c => c = 13 := by
  induction s using List.reverseRecOn with
  | nil => simp
  | append_singleton s c ih =>
    rw [List.mem_append, not_or, List.mem_singleton] at h
    by_cases hc : c = 13
    · rw [List.rdropWhile_concat_pos _ _ _ (by simp [hc]), List.rdropWhile_concat_pos _ _ _ (by simp [hc]), ih h.1]
    · rw [List.rdropWhile_concat_neg _ _ _ (by simp [hc, Ne.symm h.2]),
        List.rdropWhile_concat_neg _ _ _ (by simp [hc])]

lemma rdropWhile_line {input r : Text} (hr : r ∈ rawLines 10 input) (hz : 0 ∉ r) :
    (r.takeWhile (· != 0)).rdropWhile (fun c => c = 10 ∨ c = 13) = (strip 10 r).rdropWhile fun c => c = 13 := by
  have ht : r.takeWhile (· != 0) = r := List.takeWhile_eq_self_iff.2 fun c hc => by
    simpa using fun h0 : c = 0 => hz (h0 ▸ hc)
  rw [ht]
  obtain ⟨t, hn, rfl | ⟨rfl, _⟩⟩ := mem_rawLines hr
  · rw [List.rdropWhile_concat_pos _ _ _ (by simp), strip_append, rdropWhile_of_notMem hn]
  · rw [strip_of_notMem hn, rdropWhile_of_notMem hn]

lemma flatMap_lines (l : Text) :
    (lines 10 l).flatMap (· ++ [10]) = l ∨ (lines 10 l).flatMap (· ++ [10]) = l ++ [10] := by
  induction l using lines_induction (10 : UInt8) with
  | last t ht =>
    by_cases hne : t = []
    · rw [hne]
      exact .inl rfl
    · rw [lines_of_notMem ht hne]
      exact .inr (List.flatMap_singleton _ _)
  | line t l ht ih =>
    rw [lines_append_cons ht, List.flatMap_cons]
    rcases ih with ih | ih
    · rw [ih]
      exact .inl (by simp)
    · rw [ih]
      exact .inr (by simp)

namespace Editor

lemma openFile_lines (screenrows : ℕ) (name : Text) (t : ℕ → ℕ) {input : Text} (hz : 0 ∉ input)
    (hfit : ∀ r ∈ rawLines 10 input, r.length < lineSize) : ∃ e, (∀ fuel, input.length < fuel →
      openFile screenrows name (Mode.r.descriptor fun i => some (t i)) fuel (some input) = some e) ∧
    e.lines = (Library.lines 10 input).map (List.rdropWhile fun c => c = 13) := by
  obtain ⟨e, he, hl⟩ := openFile_eq screenrows name t input
  have hp : pieces 10 (lineSize - 1) input = rawLines 10 input := by
    rw [pieces_eq_flatMap (by decide),
      List.flatMap_congr fun r hr => pieces_fit hr (Nat.le_sub_one_of_lt (hfit r hr)), List.flatMap_singleton']
  have hflat : (pieces 10 (lineSize - 1) input).flatten = input := flatten_pieces (by decide)
  rw [hp] at hflat
  refine ⟨e, he, ?_⟩
  rw [hl, hp, lines_eq_map, List.map_map]
  apply List.map_congr_left
  intro r hr
  apply rdropWhile_line hr
  intro h0
  apply hz
  rw [← hflat]
  exact List.mem_flatten.2 ⟨r, hr, h0⟩

theorem openFile_saveFile (screenrows : ℕ) (name : Text) (t : ℕ → ℕ) (input : Text) (hz : 0 ∉ input)
    (hfit : ∀ r ∈ rawLines 10 input, r.length < lineSize) :
    (∀ (e : Editor) calls file file', e.saveFile calls file = (true, file') →
      file'.contents = e.lines.flatMap (· ++ [10])) ∧
    (∀ (e : Editor) k file, (e.lines.flatMap (· ++ [10])).length ≤ k + 1 →
      (e.saveFile { write := some k } file).1 = true) ∧
    ∃ e, (∀ fuel, input.length < fuel →
        openFile screenrows name (Mode.r.descriptor fun i => some (t i)) fuel (some input) = some e) ∧
      e.lines = (Library.lines 10 input).map (List.rdropWhile fun c => c = 13) ∧
      ∀ calls file', e.saveFile calls (FileAt.ofBytes input) = (true, file') →
        file'.contents = (Library.lines 10 input).flatMap (fun s => s.rdropWhile (fun c => c = 13) ++ [10]) ∧
        ((∀ s ∈ Library.lines 10 input, s.getLast? ≠ some 13) →
          file'.contents = input ∨ file'.contents = input ++ [10]) := by
  refine ⟨fun e calls file file' h => saveFile_contents h, fun e k file h => saveFile_succeeds h, ?_⟩
  obtain ⟨e, he, hl⟩ := openFile_lines screenrows name t hz hfit
  refine ⟨e, he, hl, fun calls file' h => ?_⟩
  have hc := saveFile_contents h
  rw [hl, List.flatMap_map] at hc
  refine ⟨hc, fun hs => ?_⟩
  have hsame : (Library.lines 10 input).flatMap (fun s => s.rdropWhile (fun c => c = 13) ++ [10]) =
      (Library.lines 10 input).flatMap (· ++ [10]) := by
    apply List.flatMap_congr
    intro s hm
    congr 1
    rw [List.rdropWhile_eq_self_iff]
    intro hne h13
    apply hs s hm
    rw [List.getLast?_eq_some_getLast hne]
    simpa using h13
  rw [hc, hsame]
  exact flatMap_lines input

theorem openFile_saveFile_line : ∃ e, openFile 22 (ascii "a.c") (Mode.r.descriptor fun _ => some 0) 5
      (some [104, 105, 13, 10]) = some e ∧ e.lines = [[104, 105]] := by
  obtain ⟨e, he, hl, _⟩ := (openFile_saveFile 22 (ascii "a.c") (fun _ => 0) [104, 105, 13, 10] (by decide)
    (by decide)).2.2
  exact ⟨e, he 5 (by decide), by rw [hl]; decide⟩

theorem openFile_saveFile_crlf : ¬ ∀ (screenrows : ℕ) (name : Text) (t : ℕ → ℕ) (input : Text) (fuel : ℕ) (e : Editor)
    (calls : SaveCalls) (file' : FileAt),
    openFile screenrows name (Mode.r.descriptor fun i => some (t i)) fuel (some input) = some e →
    e.saveFile calls (FileAt.ofBytes input) = (true, file') →
      file'.contents = input ∨ file'.contents = input ++ [10] := by
  intro h
  obtain ⟨e, he, hl⟩ := openFile_lines 22 [97] (fun _ => 0) (by decide : (0 : UInt8) ∉ [13, 10]) (by decide)
  have hs : (e.lines.flatMap (· ++ [10])) = [10] := by
    rw [hl]
    decide
  have hsave : (e.saveFile { write := some 0 } (FileAt.ofBytes [13, 10])).1 = true :=
    saveFile_succeeds (by rw [hs]; rfl)
  have hsaved : e.saveFile { write := some 0 } (FileAt.ofBytes [13, 10]) = (true, _) := Prod.ext hsave rfl
  have hc := saveFile_contents hsaved
  rw [hs] at hc
  rcases h 22 [97] (fun _ => 0) [13, 10] 3 e _ _ (he 3 (by decide)) hsaved with hd | hd
  · exact absurd (hc.symm.trans hd) (by decide)
  · exact absurd (hc.symm.trans hd) (by decide)

end Editor

end MyOS.User.Edit
