import MyOS.Memory.CopyToSpace

/-! The stack that a new program finds: its arguments and the array of pointers to them. -/

namespace MyOS.Proc

open Library Library.Radix Memory

def maxArgs : ℕ := 16
def maxArgBytes : ℕ := 4096

structure CString where
  bytes : List UInt8
  noZero : 0 ∉ bytes

namespace CString

def terminated (a : CString) : List UInt8 := a.bytes ++ [0]

def size (a : CString) : ℕ := a.bytes.length + 1

@[simp]
lemma length_terminated (a : CString) : a.terminated.length = a.size := List.length_append

end CString

def totalSize (argv : List CString) : ℕ := (argv.map CString.size).sum

def argsFit (argv : List CString) : Bool :=
  argv.length ≤ maxArgs && totalSize argv ≤ maxArgBytes

def copyArgs (t : Pml4) (mem : ℕ → UInt8) : List CString → Option (ℕ × List ℕ) × (ℕ → UInt8)
  | [] => (some (userStackTop, []), mem)
  | a :: rest =>
    match copyArgs t mem rest with
    | (none, mem) => (none, mem)
    | (some (sp, ptrs), mem) =>
      match vmmCopyToSpace t mem (sp - a.size) a.terminated with
      | (false, mem) => (none, mem)
      | (true, mem) => (some (sp - a.size, (sp - a.size) :: ptrs), mem)

def setupUserStack (t : Pml4) (mem : ℕ → UInt8) (argv : List CString) : Option ℕ × (ℕ → UInt8) :=
  match copyArgs t mem argv with
  | (none, mem) => (none, mem)
  | (some (sp, ptrs), mem) =>
    let sp := alignDown (alignDown sp 16 - (argv.length + 1) * 8) 16
    match vmmCopyToSpace t mem sp (Bytes.words (ptrs ++ [0])) with
    | (false, mem) => (none, mem)
    | (true, mem) => (some sp, mem)

/-- The two pages below the top of the stack, after `mm_populate`: each has a frame of its own. -/
structure Populated (t : Pml4) (lower upper : Pte) : Prop where
  lower_get : t.get (userStackTop - pageSize * 2) = some lower
  upper_get : t.get (userStackTop - pageSize) = some upper
  lower_ne : lower.frame ≠ 0
  upper_ne : upper.frame ≠ 0
  apart : lower.frame ≠ upper.frame

/-- The strings of `argv` lie one behind the other from `sp` to `stop`, at the addresses `ptrs`. -/
def Laid (v : ℕ → UInt8) (stop : ℕ) : ℕ → List CString → List ℕ → Prop
  | sp, [], [] => sp = stop
  | sp, a :: argv, p :: ptrs =>
    p = sp ∧ Bytes.load v sp a.size = a.terminated ∧ Laid v stop (sp + a.size) argv ptrs
  | _, _, _ => False

structure StackOf (v : ℕ → UInt8) (argv : List CString) (sp : ℕ) (ptrs : List ℕ) : Prop where
  aligned : sp % 16 = 0
  inside : userStackTop - pageSize * 2 ≤ sp
  count : ptrs.length = argv.length
  pointers : ∀ i (h : i < ptrs.length), Bytes.read v (sp + 8 * i) 8 = ptrs[i]
  null : Bytes.read v (sp + 8 * argv.length) 8 = 0
  strings : ∀ i (h : i < argv.length) (h' : i < ptrs.length),
    Bytes.load v ptrs[i] argv[i].size = argv[i].terminated ∧
      sp + 8 * (argv.length + 1) ≤ ptrs[i] ∧ ptrs[i] + argv[i].size ≤ userStackTop
  ordered : ∀ i j (h : i < j) (hj : j < argv.length) (hj' : j < ptrs.length),
    ptrs[i] + argv[i].size ≤ ptrs[j]

variable {t : Pml4} {mem : ℕ → UInt8} {argv : List CString} {lower upper : Pte}

lemma vmmTranslate_page {va wa : ℕ} {pte : Pte} (h : t.get wa = some pte)
    (hpage : va / 4096 = wa / 4096) : vmmTranslate t va = pte.frame * 4096 + va % 4096 := by
  have hget : t.get va = some pte := by
    rw [← h]
    exact congrArg (Library.Radix.lookup ptes 3 t) hpage
  simp only [vmmTranslate, hget, pageToPhys, pageSize]

lemma Populated.cases (h : Populated t lower upper) {va : ℕ}
    (hlo : userStackTop - pageSize * 2 ≤ va) (hhi : va < userStackTop) :
    va / 4096 = 34359738365 ∧ vmmTranslate t va = lower.frame * 4096 + va % 4096 ∨
      va / 4096 = 34359738366 ∧ vmmTranslate t va = upper.frame * 4096 + va % 4096 := by
  have htop : userStackTop = 140737488351232 := rfl
  have hpage : pageSize = 4096 := rfl
  rw [htop, hpage] at hlo
  rw [htop] at hhi
  by_cases hva : va < userStackTop - pageSize
  · rw [htop, hpage] at hva
    have hdiv : va / 4096 = 34359738365 := by omega
    exact Or.inl ⟨hdiv, vmmTranslate_page h.lower_get (hdiv.trans (by decide))⟩
  · rw [htop, hpage] at hva
    have hdiv : va / 4096 = 34359738366 := by omega
    exact Or.inr ⟨hdiv, vmmTranslate_page h.upper_get (hdiv.trans (by decide))⟩

lemma Populated.window (h : Populated t lower upper) :
    Window t (userStackTop - pageSize * 2) userStackTop := by
  have hl := h.lower_ne
  have hu := h.upper_ne
  have hapart := h.apart
  constructor
  · intro va hlo hhi
    rcases h.cases hlo hhi with ⟨-, hva⟩ | ⟨-, hva⟩ <;> omega
  · intro va wa hva hva' hwa hwa' heq
    rcases h.cases hva hva' with ⟨h₁, h₂⟩ | ⟨h₁, h₂⟩ <;>
      rcases h.cases hwa hwa' with ⟨h₃, h₄⟩ | ⟨h₃, h₄⟩ <;> omega

namespace Laid

variable {v v' : ℕ → UInt8} {stop sp : ℕ} {ptrs : List ℕ}

lemma total (h : Laid v stop sp argv ptrs) : sp + totalSize argv = stop := by
  induction argv generalizing sp ptrs with
  | nil =>
    cases ptrs with
    | nil => exact h
    | cons p ptrs => exact h.elim
  | cons a argv ih =>
    cases ptrs with
    | nil => exact h.elim
    | cons p ptrs =>
      have hrest := ih h.2.2
      simp only [totalSize, List.map_cons, List.sum_cons] at hrest ⊢
      omega

lemma length (h : Laid v stop sp argv ptrs) : ptrs.length = argv.length := by
  induction argv generalizing sp ptrs with
  | nil =>
    cases ptrs with
    | nil => rfl
    | cons p ptrs => exact h.elim
  | cons a argv ih =>
    cases ptrs with
    | nil => exact h.elim
    | cons p ptrs => rw [List.length_cons, List.length_cons, ih h.2.2]

lemma congr (h : Laid v stop sp argv ptrs) (hv : ∀ x, sp ≤ x → x < stop → v' x = v x) :
    Laid v' stop sp argv ptrs := by
  induction argv generalizing sp ptrs with
  | nil =>
    cases ptrs with
    | nil => exact h
    | cons p ptrs => exact h.elim
  | cons a argv ih =>
    cases ptrs with
    | nil => exact h.elim
    | cons p ptrs =>
      obtain ⟨hp, hload, hrest⟩ := h
      have htotal := hrest.total
      refine ⟨hp, ?_, ih hrest fun x h₁ h₂ => hv x (by omega) h₂⟩
      rw [← hload]
      exact Bytes.load_congr fun x h₁ h₂ => hv x h₁ (by omega)

lemma get (h : Laid v stop sp argv ptrs) (i : ℕ) (hi : i < argv.length) (hi' : i < ptrs.length) :
    Bytes.load v ptrs[i] argv[i].size = argv[i].terminated ∧
      sp ≤ ptrs[i] ∧ ptrs[i] + argv[i].size ≤ stop := by
  induction argv generalizing sp ptrs i with
  | nil => simp at hi
  | cons a argv ih =>
    cases ptrs with
    | nil => exact h.elim
    | cons p ptrs =>
      obtain ⟨rfl, hload, hrest⟩ := h
      have htotal := hrest.total
      cases i with
      | zero => exact ⟨hload, le_rfl, by simp only [List.getElem_cons_zero]; omega⟩
      | succ i =>
        obtain ⟨h₁, h₂, h₃⟩ := ih hrest i (by simpa using hi) (by simpa using hi')
        exact ⟨h₁, by simp only [List.getElem_cons_succ]; omega, h₃⟩

lemma ordered (h : Laid v stop sp argv ptrs) (i j : ℕ) (hij : i < j) (hj : j < argv.length)
    (hj' : j < ptrs.length) : ptrs[i] + argv[i].size ≤ ptrs[j] := by
  induction argv generalizing sp ptrs i j with
  | nil => simp at hj
  | cons a argv ih =>
    cases ptrs with
    | nil => exact h.elim
    | cons p ptrs =>
      obtain ⟨rfl, -, hrest⟩ := h
      cases j with
      | zero => simp at hij
      | succ j =>
        cases i with
        | zero => exact (hrest.get j (by simpa using hj) (by simpa using hj')).2.1
        | succ i => exact ih hrest i j (by omega) (by simpa using hj) (by simpa using hj')

end Laid

lemma copyArgs_spec (h : Populated t lower upper) (mem : ℕ → UInt8) (hfit : totalSize argv ≤ maxArgBytes) :
    ∃ sp ptrs mem', copyArgs t mem argv = (some (sp, ptrs), mem') ∧
      Laid (view t mem') userStackTop sp argv ptrs ∧
      ∀ a, (∀ va, userStackTop - pageSize * 2 ≤ va → va < userStackTop → vmmTranslate t va ≠ a) →
        mem' a = mem a := by
  induction argv with
  | nil => exact ⟨userStackTop, [], mem, rfl, rfl, fun a _ => rfl⟩
  | cons a argv ih =>
    have hsum : totalSize (a :: argv) = a.size + totalSize argv := by simp [totalSize]
    obtain ⟨sp, ptrs, mem₁, hcopy, hlaid, hkept⟩ := ih (by omega)
    have htotal := hlaid.total
    simp only [maxArgBytes] at hfit
    have htop : userStackTop = 140737488351232 := rfl
    have hlen := a.length_terminated
    have hsp : sp - a.size + a.size = sp := by omega
    have hlow : userStackTop - pageSize * 2 ≤ sp - a.size := by
      simp only [pageSize]
      omega
    obtain ⟨hok, hcopied⟩ : (vmmCopyToSpace t mem₁ (sp - a.size) a.terminated).1 = true ∧
        Copied t (userStackTop - pageSize * 2) userStackTop mem₁
          (vmmCopyToSpace t mem₁ (sp - a.size) a.terminated).2 (sp - a.size) a.terminated :=
      h.window.copyToSpace hlow (by omega)
    generalize hr : vmmCopyToSpace t mem₁ (sp - a.size) a.terminated = r at hok hcopied
    obtain ⟨ok, mem₂⟩ := r
    obtain rfl : ok = true := hok
    refine ⟨sp - a.size, (sp - a.size) :: ptrs, mem₂, ?_, ⟨rfl, ?_, ?_⟩, fun x hx =>
      (hcopied.kept x hx).trans (hkept x hx)⟩
    · simp only [copyArgs, hcopy, hr]
    · rw [← Bytes.load_store_self (m := view t mem₁) (a := sp - a.size) hlen]
      exact Bytes.load_congr fun x h₁ h₂ => hcopied.seen x (by omega) (by omega)
    · rw [hsp]
      refine hlaid.congr fun x h₁ h₂ => ?_
      rw [hcopied.seen x (by omega) h₂]
      exact Bytes.store_of_not_mem (by omega)

lemma alignDown_sixteen {x : ℕ} (hx : x < 2 ^ 64) : alignDown x 16 = x / 16 * 16 :=
  alignDown_eq (k := 4) hx (by decide)

theorem setupUserStack_stackOf (h : Populated t lower upper) (mem : ℕ → UInt8)
    (hfit : argsFit argv = true) :
    ∃ sp ptrs mem', setupUserStack t mem argv = (some sp, mem') ∧
      StackOf (view t mem') argv sp ptrs ∧
      ∀ a, a / pageSize ≠ lower.frame → a / pageSize ≠ upper.frame → mem' a = mem a := by
  have htop : userStackTop = 140737488351232 := rfl
  obtain ⟨hargs, hbytes⟩ : argv.length ≤ maxArgs ∧ totalSize argv ≤ maxArgBytes := by
    simpa [argsFit] using hfit
  obtain ⟨sp₀, ptrs, mem₁, hcopy, hlaid, hkept⟩ := copyArgs_spec h mem hbytes
  simp only [maxArgs] at hargs
  simp only [maxArgBytes] at hbytes
  have htotal := hlaid.total
  have hcount := hlaid.length
  have hsp : alignDown (alignDown sp₀ 16 - (argv.length + 1) * 8) 16 =
      (sp₀ / 16 * 16 - (argv.length + 1) * 8) / 16 * 16 := by
    have hdown := alignDown_sixteen (x := sp₀) (by omega)
    rw [hdown, alignDown_sixteen (by omega)]
  generalize hspeq : (sp₀ / 16 * 16 - (argv.length + 1) * 8) / 16 * 16 = sp at hsp
  have hwords : (Bytes.words (ptrs ++ [0])).length = 8 * (argv.length + 1) := by
    rw [Bytes.length_words, List.length_append, hcount, List.length_singleton]
  have hroom : sp + 8 * (argv.length + 1) ≤ sp₀ := by omega
  have hlow : userStackTop - pageSize * 2 ≤ sp := by
    simp only [pageSize]
    omega
  obtain ⟨hok, hcopied⟩ : (vmmCopyToSpace t mem₁ sp (Bytes.words (ptrs ++ [0]))).1 = true ∧
      Copied t (userStackTop - pageSize * 2) userStackTop mem₁
        (vmmCopyToSpace t mem₁ sp (Bytes.words (ptrs ++ [0]))).2 sp (Bytes.words (ptrs ++ [0])) :=
    h.window.copyToSpace hlow (by omega)
  generalize hr : vmmCopyToSpace t mem₁ sp (Bytes.words (ptrs ++ [0])) = r at hok hcopied
  obtain ⟨ok, mem₂⟩ := r
  obtain rfl : ok = true := hok
  have hstrings : Laid (view t mem₂) userStackTop sp₀ argv ptrs := by
    refine hlaid.congr fun x h₁ h₂ => ?_
    rw [hcopied.seen x (by omega) h₂]
    exact Bytes.store_of_not_mem (by omega)
  have hword : ∀ i (hi : i < (ptrs ++ [0]).length), (ptrs ++ [0])[i] < 256 ^ 8 →
      Bytes.read (view t mem₂) (sp + 8 * i) 8 = (ptrs ++ [0])[i] := by
    intro i hi hlt
    rw [List.length_append, List.length_singleton] at hi
    rw [← Bytes.read_writeWords (m := view t mem₁) (a := sp) (by simpa using hi) hlt, ← Bytes.store_words]
    exact Bytes.read_congr fun x h₁ h₂ => hcopied.seen x (by omega) (by omega)
  refine ⟨sp, ptrs, mem₂, ?_, ⟨by omega, hlow, hcount, ?_, ?_, ?_, hlaid.ordered⟩, ?_⟩
  · simp only [setupUserStack, hcopy, hsp, hr]
  · intro i hi
    have hi' : i < (ptrs ++ [0]).length := by
      rw [List.length_append]
      omega
    have hget : (ptrs ++ [0])[i] = ptrs[i] := List.getElem_append_left hi
    have hin := hlaid.get i (hcount ▸ hi) hi
    rw [← hget]
    apply hword i hi'
    rw [hget]
    have : (256 : ℕ) ^ 8 = 18446744073709551616 := by norm_num
    omega
  · have hi' : argv.length < (ptrs ++ [0]).length := by
      rw [List.length_append, List.length_singleton]
      omega
    have hget : (ptrs ++ [0])[argv.length] = 0 := by
      rw [List.getElem_append_right hcount.le]
      simp
    rw [← hget]
    exact hword _ hi' (by rw [hget]; norm_num)
  · intro i hi hi'
    obtain ⟨hload, h₁, h₂⟩ := hstrings.get i hi hi'
    exact ⟨hload, by omega, h₂⟩
  · intro a hl hu
    have hne : ∀ va, userStackTop - pageSize * 2 ≤ va → va < userStackTop → vmmTranslate t va ≠ a := by
      rintro va hlo hhi rfl
      simp only [pageSize] at hl hu
      rcases h.cases hlo hhi with ⟨-, hva⟩ | ⟨-, hva⟩ <;> omega
    exact (hcopied.kept a hne).trans (hkept a hne)

def topTables : Pml4 :=
  let page (n frame : ℕ) : ℕ → Option Pte := fun i =>
    if i = n then some { frame := frame, writable := true } else none
  let leaves : Tree Pte 1 :=
    { label := 4, entry := fun i => if i = 510 then page 510 301 i else page 509 300 i }
  let middle : Tree Pte 2 := { label := 3, entry := fun i => if i = 511 then some leaves else none }
  let upper : Tree Pte 3 := { label := 2, entry := fun i => if i = 511 then some middle else none }
  { label := 1, entry := fun i => if i = 255 then some upper else none }

lemma topTables_populated : Populated topTables { frame := 300, writable := true }
    { frame := 301, writable := true } :=
  ⟨by decide, by decide, by decide, by decide, by decide⟩

theorem setupUserStack_stackOf_echo : ∃ sp ptrs mem',
    setupUserStack topTables (fun _ => 0) [⟨[0x65, 0x63, 0x68, 0x6f], by decide⟩, ⟨[0x41], by decide⟩] =
      (some sp, mem') ∧
    StackOf (view topTables mem') [⟨[0x65, 0x63, 0x68, 0x6f], by decide⟩, ⟨[0x41], by decide⟩] sp ptrs ∧
    ∀ a, a / pageSize ≠ 300 → a / pageSize ≠ 301 → mem' a = 0 :=
  setupUserStack_stackOf topTables_populated (fun _ => 0) (by decide)

end MyOS.Proc
