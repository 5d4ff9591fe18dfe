import MyOS.Fs.Files

/-! The reference count of a file is the number of references to it, and what is released once. -/

namespace MyOS.Fs

open Function

namespace Files

/-- `held` counts the references to each file, and `ending` the calls of `file_close` that have
dropped the last one and are not done. -/
structure Counted (t : Files) (held ending : ℕ → ℕ) : Prop where
  refcount : ∀ f x, t.file f = some x → x.refcount = held f
  freed : ∀ f x, t.file f = some x → x.freed + ending f + (if held f = 0 then 0 else 1) = 1
  released : ∀ f x, t.file f = some x → x.released = if x.release = .none then 0 else x.freed
  fresh : ∀ f, t.file f = none → held f = 0 ∧ ending f = 0
  ends : ∀ p y, t.pipe p = some y → ∃ r w x z, t.file r = some x ∧ x.release = .reader p ∧
    t.file w = some z ∧ z.release = .writer p ∧ y.readers = 1 - x.freed ∧
    y.writers = 1 - z.freed ∧ y.freed = x.freed * z.freed
  one : ∀ f g x z, t.file f = some x → t.file g = some z → x.release = z.release →
    x.release ≠ .none → f = g
  pipe : ∀ f x p, t.file f = some x → x.release = .reader p ∨ x.release = .writer p →
    t.pipe p ≠ none

variable {t : Files} {held held' ending ending' : ℕ → ℕ} {f r w p : ℕ}

/-- The file `f` becomes `y`, of the same pipe. -/
lemma Counted.replace {t' : Files} {x y : File} (h : t.Counted held ending) (hx : t.file f = some x)
    (hfile : t'.file = update t.file f (some y)) (hrel : y.release = x.release)
    (hcount : y.refcount = held' f) (hsum : y.freed + ending' f + (if held' f = 0 then 0 else 1) = 1)
    (hreleased : y.released = if y.release = .none then 0 else y.freed)
    (hother : ∀ k, k ≠ f → held' k = held k ∧ ending' k = ending k)
    (hends : ∀ q e, t'.pipe q = some e → ∃ r w u z, t'.file r = some u ∧ u.release = .reader q ∧
      t'.file w = some z ∧ z.release = .writer q ∧ e.readers = 1 - u.freed ∧
      e.writers = 1 - z.freed ∧ e.freed = u.freed * z.freed)
    (hpipe : ∀ q, t.pipe q ≠ none → t'.pipe q ≠ none) : t'.Counted held' ending' := by
  have hold : ∀ k z, t'.file k = some z → k = f ∧ z = y ∨ k ≠ f ∧ t.file k = some z := by
    intro k z hz
    rw [hfile] at hz
    by_cases hk : k = f
    · subst hk
      rw [update_self, Option.some.injEq] at hz
      exact .inl ⟨rfl, hz.symm⟩
    · exact .inr ⟨hk, by rwa [update_of_ne hk] at hz⟩
  have hsame : ∀ k z, t'.file k = some z → ∃ u, t.file k = some u ∧ z.release = u.release := by
    intro k z hz
    rcases hold k z hz with ⟨rfl, rfl⟩ | ⟨-, hz⟩
    · exact ⟨x, hx, hrel⟩
    · exact ⟨z, hz, rfl⟩
  refine ⟨?_, ?_, ?_, ?_, hends, ?_, ?_⟩
  · intro k z hz
    rcases hold k z hz with ⟨rfl, rfl⟩ | ⟨hk, hz⟩
    · exact hcount
    · rw [(hother k hk).1]
      exact h.refcount k z hz
  · intro k z hz
    rcases hold k z hz with ⟨rfl, rfl⟩ | ⟨hk, hz⟩
    · exact hsum
    · rw [(hother k hk).1, (hother k hk).2]
      exact h.freed k z hz
  · intro k z hz
    rcases hold k z hz with ⟨rfl, rfl⟩ | ⟨-, hz⟩
    · exact hreleased
    · exact h.released k z hz
  · intro k hk
    have hkf : k ≠ f := by
      rintro rfl
      rw [hfile, update_self] at hk
      cases hk
    rw [(hother k hkf).1, (hother k hkf).2]
    rw [hfile, update_of_ne hkf] at hk
    exact h.fresh k hk
  · intro k l u z hu hz heq hne
    obtain ⟨u', hu', hur⟩ := hsame k u hu
    obtain ⟨z', hz', hzr⟩ := hsame l z hz
    rw [hur, hzr] at heq
    rw [hur] at hne
    exact h.one k l u' z' hu' hz' heq hne
  · intro k z q hz hrel
    obtain ⟨u, hu, hur⟩ := hsame k z hz
    rw [hur] at hrel
    exact hpipe q (h.pipe k u q hu hrel)

lemma Counted.congr (h : t.Counted held ending) (hh : ∀ k, held' k = held k)
    (he : ∀ k, ending' k = ending k) : t.Counted held' ending' := by
  obtain rfl : held' = held := funext hh
  obtain rfl : ending' = ending := funext he
  exact h

lemma Counted.modify (h : t.Counted held ending) (g : File → File)
    (hg : ∀ x, (g x).release = x.release ∧ (g x).released = x.released ∧ (g x).freed = x.freed)
    (hcount : ∀ x, t.file f = some x → (g x).refcount = held' f)
    (hsum : ∀ x, t.file f = some x → x.freed + ending' f + (if held' f = 0 then 0 else 1) = 1)
    (hfresh : t.file f = none → held' f = 0 ∧ ending' f = 0)
    (hother : ∀ k, k ≠ f → held' k = held k ∧ ending' k = ending k) :
    (t.modify f g).Counted held' ending' := by
  cases hx : t.file f with
  | none =>
    have hsame : t.modify f g = t := by
      rw [Files.modify, hx, Option.map_none, ← hx, update_eq_self]
    have hall : ∀ k, held' k = held k ∧ ending' k = ending k := by
      intro k
      by_cases hk : k = f
      · subst hk
        rw [(hfresh hx).1, (hfresh hx).2, (h.fresh k hx).1, (h.fresh k hx).2]
        exact ⟨rfl, rfl⟩
      · exact hother k hk
    rw [hsame]
    exact h.congr (fun k => (hall k).1) fun k => (hall k).2
  | some x =>
    obtain ⟨hrel, hreleased, hfreed⟩ := hg x
    have hnew : ∀ k u, t.file k = some u → ∃ z, (t.modify f g).file k = some z ∧
        z.release = u.release ∧ z.freed = u.freed := by
      intro k u hu
      by_cases hk : k = f
      · subst hk
        exact ⟨g u, by simp [Files.modify, hu], (hg u).1, (hg u).2.2⟩
      · exact ⟨u, by simpa [Files.modify, hk] using hu, rfl, rfl⟩
    refine h.replace hx (by rw [Files.modify, hx, Option.map_some]) hrel (hcount x hx) ?_ ?_ hother ?_ fun q => id
    · rw [hfreed]
      exact hsum x hx
    · rw [hreleased, hrel, hfreed]
      exact h.released f x hx
    · intro p y hy
      obtain ⟨r, w, u, z, hu, hur, hz, hzw, hreaders, hwriters, hyf⟩ := h.ends p y hy
      obtain ⟨u', hu', hrel, huf⟩ := hnew r u hu
      obtain ⟨z', hz', hzrel, hzf⟩ := hnew w z hz
      exact ⟨r, w, u', z', hu', hrel.trans hur, hz', hzrel.trans hzw, by rw [huf, hreaders],
        by rw [hzf, hwriters], by rw [huf, hzf, hyf]⟩

lemma Counted.dup (h : t.Counted held ending) (hf : 0 < held f)
    (hh : ∀ k, held' k = held k + if k = f then 1 else 0) (he : ∀ k, ending' k = ending k) :
    (t.dup f).Counted held' ending' := by
  have hself := hh f
  rw [if_pos rfl] at hself
  apply h.modify
  · exact fun x => ⟨rfl, rfl, rfl⟩
  · intro x hx
    have hc := h.refcount f x hx
    simp only [hc, hself]
    push_cast
    rfl
  · intro x hx
    have hs := h.freed f x hx
    rw [if_neg (by omega)] at hs
    rw [he, if_neg (by omega)]
    exact hs
  · intro hn
    have := (h.fresh f hn).1
    omega
  · intro k hk
    exact ⟨by rw [hh, if_neg hk, add_zero], he k⟩

lemma Counted.drop (h : t.Counted held ending)
    (hh : ∀ k, held k = held' k + if k = f then 1 else 0)
    (he : ∀ k, ending' k = ending k + if k = f ∧ held' f = 0 then 1 else 0) :
    (t.drop f).Counted held' ending' := by
  have hself := hh f
  rw [if_pos rfl] at hself
  have heself := he f
  simp only [true_and] at heself
  apply h.modify
  · exact fun x => ⟨rfl, rfl, rfl⟩
  · intro x hx
    have hc := h.refcount f x hx
    simp only [hc, hself]
    push_cast
    ring
  · intro x hx
    have hs := h.freed f x hx
    rw [if_neg (by omega)] at hs
    rw [heself]
    split_ifs <;> omega
  · intro hn
    have := (h.fresh f hn).1
    omega
  · intro k hk
    have hk' := hh k
    rw [if_neg hk] at hk'
    exact ⟨by omega, by rw [he, if_neg (fun hc => hk hc.1), add_zero]⟩

/-- New files, each with one reference, and new pipes with their two ends. -/
lemma Counted.extend {t' : Files} (h : t.Counted held ending)
    (hfile : ∀ k x, t'.file k = some x → t.file k = some x ∧ held' k = held k ∨
      t.file k = none ∧ held' k = 1 ∧ ∃ l, x = { release := l })
    (hfree : ∀ k, t'.file k = none → t.file k = none ∧ held' k = held k)
    (he : ∀ k, ending' k = ending k)
    (hends : ∀ q y, t'.pipe q = some y → t.pipe q = some y ∨ y = {} ∧ ∃ r w,
      t'.file r = some { release := .reader q } ∧ t'.file w = some { release := .writer q })
    (hone : ∀ k l x z, t'.file k = some x → t'.file l = some z → t.file k = none →
      x.release = z.release → x.release ≠ .none → k = l)
    (hpipe : ∀ k x q, t'.file k = some x → t.file k = none →
      x.release = .reader q ∨ x.release = .writer q → t'.pipe q ≠ none)
    (hpipes : ∀ q, t.pipe q ≠ none → t'.pipe q ≠ none) : t'.Counted held' ending' := by
  have hkeep : ∀ k x, t.file k = some x → t'.file k = some x := by
    intro k x hx
    cases hy : t'.file k with
    | none =>
      rw [(hfree k hy).1] at hx
      cases hx
    | some y =>
      rcases hfile k y hy with ⟨hy, -⟩ | ⟨hn, -⟩
      · exact hy.symm.trans hx
      · rw [hn] at hx
        cases hx
  refine ⟨?_, ?_, ?_, ?_, ?_, ?_, ?_⟩
  · intro k x hx
    rcases hfile k x hx with ⟨hx, hk⟩ | ⟨-, hk, l, rfl⟩
    · rw [hk]
      exact h.refcount k x hx
    · simp [hk]
  · intro k x hx
    rcases hfile k x hx with ⟨hx, hk⟩ | ⟨hn, hk, l, rfl⟩
    · rw [hk, he]
      exact h.freed k x hx
    · simp [hk, he, (h.fresh k hn).2]
  · intro k x hx
    rcases hfile k x hx with ⟨hx, -⟩ | ⟨-, -, l, rfl⟩
    · exact h.released k x hx
    · exact (ite_self _).symm
  · intro k hk
    obtain ⟨hn, hheld⟩ := hfree k hk
    rw [hheld, he]
    exact h.fresh k hn
  · intro q y hy
    rcases hends q y hy with hy | ⟨rfl, r, w, hr, hw⟩
    · obtain ⟨r, w, x, z, hx, hxr, hz, hzw, hcounts⟩ := h.ends q y hy
      exact ⟨r, w, x, z, hkeep r x hx, hxr, hkeep w z hz, hzw, hcounts⟩
    · exact ⟨r, w, _, _, hr, rfl, hw, rfl, rfl, rfl, rfl⟩
  · intro k l x z hx hz hrel hne
    rcases hfile k x hx with ⟨hxk, -⟩ | ⟨hn, -⟩
    · rcases hfile l z hz with ⟨hzl, -⟩ | ⟨hn, -⟩
      · exact h.one k l x z hxk hzl hrel hne
      · exact (hone l k z x hz hx hn hrel.symm (hrel ▸ hne)).symm
    · exact hone k l x z hx hz hn hrel hne
  · intro k x q hx hrel
    rcases hfile k x hx with ⟨hxk, -⟩ | ⟨hn, -⟩
    · exact hpipes q (h.pipe k x q hxk hrel)
    · exact hpipe k x q hx hn hrel

lemma Counted.alloc (h : t.Counted held ending) (hf : t.file f = none)
    (hh : ∀ k, held' k = held k + if k = f then 1 else 0) (he : ∀ k, ending' k = ending k) :
    (t.alloc f).Counted held' ending' := by
  have hold : ∀ k, k ≠ f → (t.alloc f).file k = t.file k := fun k hk => update_of_ne hk ..
  have hnew : (t.alloc f).file f = some { release := .none } := update_self ..
  have hnone : ∀ k x, (t.alloc f).file k = some x → t.file k = none → x.release = .none := by
    intro k x hx hn
    by_cases hk : k = f
    · rw [hk, hnew] at hx
      cases hx
      rfl
    · rw [hold k hk, hn] at hx
      cases hx
  refine h.extend (fun k x hx => ?_) (fun k hk => ?_) he (fun q y hy => .inl hy)
    (fun k l x z hx _ hn _ hne => absurd (hnone k x hx hn) hne) (fun k x q hx hn hrel => ?_) fun q => id
  · by_cases hk : k = f
    · subst hk
      rw [hnew] at hx
      cases hx
      exact .inr ⟨hf, by simp [hh, (h.fresh k hf).1], .none, rfl⟩
    · exact .inl ⟨(hold k hk).symm.trans hx, by simp [hh, hk]⟩
  · have hkf : k ≠ f := by
      rintro rfl
      rw [hnew] at hk
      cases hk
    exact ⟨(hold k hkf).symm.trans hk, by simp [hh, hkf]⟩
  · simp [hnone k x hx hn] at hrel

lemma Counted.pipeCreate (h : t.Counted held ending) (hr : t.file r = none)
    (hw : t.file w = none) (hrw : r ≠ w) (hp : t.pipe p = none)
    (hh : ∀ k, held' k = held k + (if k = r then 1 else 0) + if k = w then 1 else 0)
    (he : ∀ k, ending' k = ending k) : (t.pipeCreate r w p).Counted held' ending' := by
  have hold : ∀ k, k ≠ r → k ≠ w → (t.pipeCreate r w p).file k = t.file k := by
    intro k hkr hkw
    simp [Files.pipeCreate, hkr, hkw]
  have hreader : (t.pipeCreate r w p).file r = some { release := .reader p } := by
    simp [Files.pipeCreate, hrw]
  have hwriter : (t.pipeCreate r w p).file w = some { release := .writer p } := update_self ..
  have hcases : ∀ k x, (t.pipeCreate r w p).file k = some x → k = r ∧ x = { release := .reader p } ∨
      k = w ∧ x = { release := .writer p } ∨ k ≠ r ∧ k ≠ w ∧ t.file k = some x := by
    intro k x hx
    by_cases hkr : k = r
    · subst hkr
      exact .inl ⟨rfl, Option.some.inj (hx.symm.trans hreader)⟩
    · by_cases hkw : k = w
      · subst hkw
        exact .inr (.inl ⟨rfl, Option.some.inj (hx.symm.trans hwriter)⟩)
      · exact .inr (.inr ⟨hkr, hkw, (hold k hkr hkw).symm.trans hx⟩)
  -- no file of an old pipe is an end of the new one
  have hnot : ∀ k x, t.file k = some x → x.release ≠ .reader p ∧ x.release ≠ .writer p := by
    intro k x hx
    exact ⟨fun hc => h.pipe k x p hx (.inl hc) hp, fun hc => h.pipe k x p hx (.inr hc) hp⟩
  refine h.extend (fun k x hx => ?_) (fun k hk => ?_) he (fun q y hy => ?_)
    (fun k l x z hx hz hn hrel _ => ?_) (fun k x q hx hn hrel => ?_) fun q hq => ?_
  · rcases hcases k x hx with ⟨rfl, rfl⟩ | ⟨rfl, rfl⟩ | ⟨hkr, hkw, hx⟩
    · exact .inr ⟨hr, by simp [hh, (h.fresh k hr).1, hrw], _, rfl⟩
    · exact .inr ⟨hw, by simp [hh, (h.fresh k hw).1, Ne.symm hrw], _, rfl⟩
    · exact .inl ⟨hx, by simp [hh, hkr, hkw]⟩
  · have hkr : k ≠ r := by
      rintro rfl
      rw [hreader] at hk
      cases hk
    have hkw : k ≠ w := by
      rintro rfl
      rw [hwriter] at hk
      cases hk
    exact ⟨(hold k hkr hkw).symm.trans hk, by simp [hh, hkr, hkw]⟩
  · by_cases hq : q = p
    · subst hq
      simp only [Files.pipeCreate, update_self, Option.some.injEq] at hy
      exact .inr ⟨hy.symm, r, w, hreader, hwriter⟩
    · simp only [Files.pipeCreate, update_of_ne hq] at hy
      exact .inl hy
  · rcases hcases k x hx with ⟨rfl, rfl⟩ | ⟨rfl, rfl⟩ | ⟨-, -, hx⟩
    · rcases hcases l z hz with ⟨rfl, rfl⟩ | ⟨rfl, rfl⟩ | ⟨-, -, hz⟩
      · rfl
      · cases hrel
      · exact absurd hrel.symm (hnot l z hz).1
    · rcases hcases l z hz with ⟨rfl, rfl⟩ | ⟨rfl, rfl⟩ | ⟨-, -, hz⟩
      · cases hrel
      · rfl
      · exact absurd hrel.symm (hnot l z hz).2
    · rw [hn] at hx
      cases hx
  · rcases hcases k x hx with ⟨rfl, rfl⟩ | ⟨rfl, rfl⟩ | ⟨-, -, hx⟩
    · obtain rfl : p = q := by simpa using hrel
      simp [Files.pipeCreate]
    · obtain rfl : p = q := by simpa using hrel
      simp [Files.pipeCreate]
    · rw [hn] at hx
      cases hx
  · by_cases hqp : q = p
    · rw [hqp] at hq
      exact absurd hp hq
    · simpa [Files.pipeCreate, hqp] using hq

lemma finish_pipe {x : File} {q : ℕ} {y : PipeEnds} (hx : t.file f = some x)
    (hy : (t.finish f).pipe q = some y) : ∃ y₀, t.pipe q = some y₀ ∧
      y.readers = y₀.readers - (if x.release = .reader q then 1 else 0) ∧
      y.writers = y₀.writers - (if x.release = .writer q then 1 else 0) ∧
      y.freed = y₀.freed + if (x.release = .reader q ∨ x.release = .writer q) ∧
        y.readers = 0 ∧ y.writers = 0 then 1 else 0 := by
  simp only [Files.finish, hx, Files.modify] at hy
  have hrel : ∀ y₁ : PipeEnds, y₁.release.readers = y₁.readers ∧
      y₁.release.writers = y₁.writers ∧
      y₁.release.freed = y₁.freed + if y₁.readers = 0 ∧ y₁.writers = 0 then 1 else 0 := by
    intro y₁
    unfold PipeEnds.release
    split_ifs <;> exact ⟨rfl, rfl, rfl⟩
  cases hr : x.release with
  | none =>
    rw [hr] at hy
    exact ⟨y, hy, by simp, by simp, by simp⟩
  | reader p | writer p =>
    rw [hr] at hy
    by_cases hq : q = p
    · subst hq
      simp only [callRelease, pipeRelease, update_self, Option.map_eq_some_iff] at hy
      obtain ⟨y₀, hy₀, rfl⟩ := hy
      refine ⟨y₀, hy₀, ?_, ?_, ?_⟩
      · simp [(hrel _).1]
      · simp [(hrel _).2.1]
      · simp [(hrel _).1, (hrel _).2.1, (hrel _).2.2]
    · simp only [callRelease, pipeRelease, update_of_ne hq] at hy
      exact ⟨y, hy, by simp [Ne.symm hq], by simp [Ne.symm hq], by simp [Ne.symm hq]⟩

lemma finish_pipe_none {q : ℕ} (h : (t.finish f).pipe q = none) : t.pipe q = none := by
  unfold Files.finish at h
  cases hx : t.file f with
  | none => simpa [hx] using h
  | some x =>
    simp only [hx, Files.modify] at h
    cases hr : x.release with
    | none => simpa [hr, callRelease] using h
    | reader p | writer p =>
      by_cases hq : q = p
      · subst hq
        simpa [hr, callRelease, pipeRelease] using h
      · simpa [hr, callRelease, pipeRelease, hq] using h

lemma finish_file {x : File} (hx : t.file f = some x) : (t.finish f).file = update t.file f (some { x with
    released := if x.release = .none then x.released else x.released + 1
    freed := x.freed + 1 }) := by
  simp only [Files.finish, hx]
  cases hr : x.release <;> simp [Files.modify, callRelease, pipeRelease, hx, hr]

lemma Counted.finish_ends {x : File} {q : ℕ} {y : PipeEnds} (h : t.Counted held ending) (hx : t.file f = some x)
    (hfreed : x.freed = 0) (hy : (t.finish f).pipe q = some y) : ∃ r w u z, (t.finish f).file r = some u ∧
      u.release = .reader q ∧ (t.finish f).file w = some z ∧ z.release = .writer q ∧ y.readers = 1 - u.freed ∧
      y.writers = 1 - z.freed ∧ y.freed = u.freed * z.freed := by
  have hfile := finish_file hx
  have hother : ∀ k, k ≠ f → (t.finish f).file k = t.file k := by
    intro k hk
    rw [hfile, update_of_ne hk]
  obtain ⟨y₀, hy₀, hreaders, hwriters, hyf⟩ := finish_pipe hx hy
  obtain ⟨r, w, u, z, hu, hur, hz, hzw, hr₀, hw₀, hf₀⟩ := h.ends q y₀ hy₀
  have hle : ∀ k v, t.file k = some v → v.freed = 0 ∨ v.freed = 1 := by
    intro k v hv
    have := h.freed k v hv
    omega
  by_cases hfr : r = f
  · subst hfr
    obtain rfl : u = x := Option.some.inj (hu.symm.trans hx)
    have hwf : w ≠ r := by
      rintro rfl
      obtain rfl : z = u := Option.some.inj (hz.symm.trans hu)
      rw [hur] at hzw
      cases hzw
    refine ⟨r, w, _, z, (congrFun hfile r).trans (update_self ..), hur,
      (hother w hwf).trans hz, hzw, ?_⟩
    simp only [hur, reduceCtorEq, if_true, if_false, or_false, true_and] at hreaders hwriters hyf
    rw [hr₀, hfreed] at hreaders
    rw [hw₀] at hwriters
    rw [hf₀, hfreed] at hyf
    rw [hyf, hreaders, hwriters, hfreed]
    rcases hle w z hz with hzf | hzf <;> simp [hzf]
  · by_cases hfw : w = f
    · subst hfw
      obtain rfl : z = x := Option.some.inj (hz.symm.trans hx)
      refine ⟨r, w, u, _, (hother r hfr).trans hu, hur,
        (congrFun hfile w).trans (update_self ..), hzw, ?_⟩
      simp only [hzw, reduceCtorEq, if_true, if_false, false_or, true_and]
        at hreaders hwriters hyf
      rw [hr₀] at hreaders
      rw [hw₀, hfreed] at hwriters
      rw [hf₀, hfreed] at hyf
      rw [hyf, hreaders, hwriters, hfreed]
      rcases hle r u hu with huf | huf <;> simp [huf]
    · have hnr : x.release ≠ .reader q := fun hc =>
        hfr (h.one r f u x hu hx (hur.trans hc.symm) (by simp [hur]))
      have hnw : x.release ≠ .writer q := fun hc =>
        hfw (h.one w f z x hz hx (hzw.trans hc.symm) (by simp [hzw]))
      simp only [hnr, hnw, if_false, sub_zero, or_self, false_and, add_zero]
        at hreaders hwriters hyf
      exact ⟨r, w, u, z, by rw [hother r hfr, hu], hur, by rw [hother w hfw, hz], hzw,
        hreaders.trans hr₀, hwriters.trans hw₀, hyf.trans hf₀⟩

lemma Counted.finish (h : t.Counted held ending)
    (he : ∀ k, ending k = ending' k + if k = f then 1 else 0) :
    (t.finish f).Counted held ending' := by
  have hself := he f
  rw [if_pos rfl] at hself
  obtain ⟨x, hx⟩ : ∃ x, t.file f = some x := by
    cases hf : t.file f with
    | some x => exact ⟨x, rfl⟩
    | none =>
      have := (h.fresh f hf).2
      omega
  have hsum := h.freed f x hx
  have hzero : x.freed = 0 ∧ held f = 0 ∧ ending' f = 0 := by
    split_ifs at hsum <;> omega
  obtain ⟨hfreed, hheld, hending⟩ := hzero
  have hreleased : x.released = 0 := by
    rw [h.released f x hx, hfreed, ite_self]
  refine h.replace hx (finish_file hx) rfl (h.refcount f x hx) ?_ ?_ (fun k hk => ?_)
    (fun q y hy => h.finish_ends hx hfreed hy) fun q hq hc => hq (finish_pipe_none hc)
  · simp [hfreed, hheld, hending]
  · simp [hfreed, hreleased]
  · rw [he, if_neg hk, add_zero]
    exact ⟨rfl, rfl⟩

end Files

end MyOS.Fs
