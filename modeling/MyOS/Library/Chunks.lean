import Mathlib.Tactic

/-! Reads of bounded length from a sequence of chunks; no read crosses from one chunk into the next. -/

namespace MyOS.Library.Chunks

variable {α : Type*}

def advance (n : ℕ) (c : List α) (cs : List (List α)) : List (List α) :=
  if n < c.length then c.drop n :: cs else cs

/-- What the reads return, and the chunks that they leave; without a chunk a read waits. -/
def serve : List (List α) → List ℕ → List (List α) × List (List α)
  | cs, [] => ([], cs)
  | [], _ :: _ => ([], [])
  | c :: cs, n :: ns => (c.take n :: (serve (advance n c cs) ns).1, (serve (advance n c cs) ns).2)

variable {cs : List (List α)} {c : List α} {n : ℕ} {ns : List ℕ}

lemma advance_append (rest : List (List α)) :
    advance n c (cs ++ rest) = advance n c cs ++ rest := by
  unfold advance
  split_ifs <;> rfl

lemma serve_append_chunk (h : (serve cs ns).1.length = ns.length) :
    serve (cs ++ [c]) ns = ((serve cs ns).1, (serve cs ns).2 ++ [c]) := by
  induction ns generalizing cs with
  | nil => cases cs <;> rfl
  | cons n ns ih =>
    cases cs with
    | nil => simp [serve] at h
    | cons d cs =>
      have hrest : (serve (advance n d cs) ns).1.length = ns.length := by
        simpa [serve] using h
      rw [List.cons_append, serve, serve, advance_append, ih hrest]

lemma serve_append_read {rest : List (List α)} (h : (serve cs ns).1.length = ns.length)
    (hr : (serve cs ns).2 = c :: rest) :
    serve cs (ns ++ [n]) = ((serve cs ns).1 ++ [c.take n], advance n c rest) := by
  induction ns generalizing cs with
  | nil =>
    have hcs : cs = c :: rest := by cases cs <;> exact hr
    rw [hcs]
    rfl
  | cons m ns ih =>
    cases cs with
    | nil => simp [serve] at h
    | cons d cs =>
      have hlen : (serve (advance m d cs) ns).1.length = ns.length := by simpa [serve] using h
      rw [List.cons_append, serve, serve, ih hlen hr, List.cons_append]

lemma serve_flatten (cs : List (List α)) (ns : List ℕ) :
    (serve cs ns).1.flatten ++ (serve cs ns).2.flatten = cs.flatten := by
  induction ns generalizing cs with
  | nil => cases cs <;> rfl
  | cons n ns ih =>
    cases cs with
    | nil => rfl
    | cons c cs =>
      have hone : c.take n ++ (advance n c cs).flatten = (c :: cs).flatten := by
        unfold advance
        split_ifs with hn
        · rw [List.flatten_cons, ← List.append_assoc, List.take_append_drop, List.flatten_cons]
        · rw [List.take_of_length_le (not_lt.1 hn), List.flatten_cons]
      rw [serve, List.flatten_cons, List.append_assoc, ih, hone]

lemma serve_count_nil [DecidableEq α] (cs : List (List α)) (hn : ∀ n ∈ ns, 0 < n) :
    (serve cs ns).1.count [] + (serve cs ns).2.count [] = cs.count [] := by
  induction ns generalizing cs with
  | nil => cases cs <;> simp [serve]
  | cons n ns ih =>
    cases cs with
    | nil => rfl
    | cons c cs =>
      have hpos : 0 < n := hn n List.mem_cons_self
      have hrest := ih (advance n c cs) fun m hm => hn m (List.mem_cons_of_mem n hm)
      have hone : (c.take n :: advance n c cs).count [] = (c :: cs).count [] := by
        unfold advance
        split_ifs with hlt
        · have hc : c ≠ [] := by
            rintro rfl
            simp at hlt
          have ht : c.take n ≠ [] := by simp [hc, hpos.ne']
          have hd : c.drop n ≠ [] := by simpa using hlt
          rw [List.count_cons_of_ne ht, List.count_cons_of_ne hd, List.count_cons_of_ne hc]
        · rw [List.take_of_length_le (not_lt.1 hlt)]
      rw [serve]
      dsimp only
      rw [← hone, List.count_cons, List.count_cons, ← hrest]
      omega

end MyOS.Library.Chunks
