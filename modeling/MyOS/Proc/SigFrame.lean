import MyOS.Library.Bits
import MyOS.Memory.PageTable

/-! The frame that a signal handler runs on, and the return from it. -/

namespace MyOS.Proc

open Library Memory

abbrev Reg := BitVec 64

structure InterruptFrame where
  r15 : Reg
  r14 : Reg
  r13 : Reg
  r12 : Reg
  r11 : Reg
  r10 : Reg
  r9 : Reg
  r8 : Reg
  rbp : Reg
  rdi : Reg
  rsi : Reg
  rdx : Reg
  rcx : Reg
  rbx : Reg
  rax : Reg
  vector : Reg
  errorCode : Reg
  rip : Reg
  cs : Reg
  rflags : Reg
  rsp : Reg
  ss : Reg
  deriving DecidableEq

structure SigAction where
  handler : Reg
  flags : Reg
  restorer : Reg
  mask : Reg

def saRestorer : Reg := 0x04000000
def saNodefer : Reg := 0x40000000
def saResethand : Reg := 0x80000000

def sigBit (sig : ℕ) : BitVec 32 := (1 : BitVec 32) <<< sig

def unblockableBits : BitVec 32 := sigBit 9 ||| sigBit 19

structure SigProcess where
  sigBlocked : BitVec 32
  sigActions : ℕ → SigAction

structure SigCtx where
  r15 : Reg
  r14 : Reg
  r13 : Reg
  r12 : Reg
  r11 : Reg
  r10 : Reg
  r9 : Reg
  r8 : Reg
  rbp : Reg
  rdi : Reg
  rsi : Reg
  rdx : Reg
  rcx : Reg
  rbx : Reg
  rax : Reg
  rip : Reg
  rflags : Reg
  rsp : Reg
  mask : Reg
  sig : Reg

namespace SigCtx

def words (c : SigCtx) : List Reg :=
  [c.r15, c.r14, c.r13, c.r12, c.r11, c.r10, c.r9, c.r8, c.rbp, c.rdi, c.rsi, c.rdx, c.rcx, c.rbx,
    c.rax, c.rip, c.rflags, c.rsp, c.mask, c.sig]

def ofWord (word : ℕ → Reg) : SigCtx :=
  { r15 := word 0, r14 := word 1, r13 := word 2, r12 := word 3, r11 := word 4, r10 := word 5,
    r9 := word 6, r8 := word 7, rbp := word 8, rdi := word 9, rsi := word 10, rdx := word 11,
    rcx := word 12, rbx := word 13, rax := word 14, rip := word 15, rflags := word 16,
    rsp := word 17, mask := word 18, sig := word 19 }

def load (bytes : ℕ → UInt8) (a : ℕ) : SigCtx :=
  ofWord fun k => BitVec.ofNat 64 (Bytes.read bytes (a + 8 * k) 8)

end SigCtx

structure UserMemory where
  bytes : ℕ → UInt8
  page : ℕ → Bool → Bool

namespace UserMemory

variable (u : UserMemory)

def userOk (addr : Reg) (len : ℕ) (write : Bool) : Bool :=
  let stop := (addr.toNat + len) % 2 ^ 64
  if len = 0 then true
  else if stop < addr.toNat ∨ ¬ isUserAddress addr.toNat ∨ stop > userSpaceEnd then false
  else
    let first := addr.toNat / pageSize
    (List.range' first ((stop - 1) / pageSize + 1 - first)).all fun n => u.page (n * pageSize) write

def copyCtx (src : Reg) : Option SigCtx :=
  if u.userOk src 160 false then some (SigCtx.load u.bytes src.toNat) else none

def copyFrame (dst : Reg) (retaddr : Reg) (c : SigCtx) : Option UserMemory :=
  if u.userOk dst 168 true then
    some { u with bytes :=
      Bytes.writeWords u.bytes dst.toNat ((retaddr :: c.words).map BitVec.toNat) }
  else none

end UserMemory

def InterruptFrame.saved (f : InterruptFrame) (p : SigProcess) (sig : ℕ) : SigCtx :=
  { r15 := f.r15, r14 := f.r14, r13 := f.r13, r12 := f.r12, r11 := f.r11, r10 := f.r10,
    r9 := f.r9, r8 := f.r8, rbp := f.rbp, rdi := f.rdi, rsi := f.rsi, rdx := f.rdx,
    rcx := f.rcx, rbx := f.rbx, rax := f.rax, rip := f.rip, rflags := f.rflags, rsp := f.rsp,
    mask := p.sigBlocked.setWidth 64, sig := BitVec.ofNat 64 sig }

def handlerRsp (rsp : Reg) : Reg := (rsp - 128 - 168 &&& ~~~(15 : Reg)) - 8

def SigProcess.handling (p : SigProcess) (sig : ℕ) (act : SigAction) : SigProcess :=
  let blocked := p.sigBlocked ||| (act.mask.setWidth 32 &&& ~~~unblockableBits)
  { sigBlocked := if act.flags &&& saNodefer = 0 then blocked ||| sigBit sig else blocked
    sigActions := if act.flags &&& saResethand ≠ 0 then
        Function.update p.sigActions sig { p.sigActions sig with handler := 0 }
      else p.sigActions }

/-- `none` is the result `-1`. -/
def setupFrame (f : InterruptFrame) (sig : ℕ) (act : SigAction) (p : SigProcess)
    (u : UserMemory) : Option (InterruptFrame × SigProcess × UserMemory) :=
  if ¬ (act.flags &&& saRestorer ≠ 0) ∨ act.restorer = 0 then none
  else
    let sp := handlerRsp f.rsp
    match u.copyFrame sp act.restorer (f.saved p sig) with
    | none => none
    | some u =>
      let f := { f with
        rip := act.handler, rsp := sp, rdi := BitVec.ofNat 64 sig, rsi := 0, rdx := 0, rax := 0,
        rflags := f.rflags &&& ~~~((1 : Reg) <<< 8 ||| (1 : Reg) <<< 10) }
      some (f, p.handling sig act, u)

def userFlags : Reg := 0xCD5
def forceIretVector : Reg := 0x81

/-- `none` is `proc_exit_signal(SIGSEGV)`; else the result is the saved `rax`. -/
def sysSigreturn (f : InterruptFrame) (p : SigProcess) (u : UserMemory) :
    Option (Reg × InterruptFrame × SigProcess) :=
  match u.copyCtx f.rsp with
  | none => none
  | some c =>
    if c.rip ≥ 0x0000800000000000 ∨ c.rsp ≥ 0x0000800000000000 then none
    else
      let f := { f with
        r15 := c.r15, r14 := c.r14, r13 := c.r13, r12 := c.r12, r11 := c.r11, r10 := c.r10,
        r9 := c.r9, r8 := c.r8, rbp := c.rbp, rdi := c.rdi, rsi := c.rsi, rdx := c.rdx,
        rcx := c.rcx, rbx := c.rbx, rip := c.rip, rsp := c.rsp,
        rflags := c.rflags &&& userFlags ||| (1 : Reg) <<< 9 ||| (1 : Reg) <<< 1, vector := forceIretVector }
      some (c.rax, f, { p with sigBlocked := c.mask.setWidth 32 &&& ~~~unblockableBits })

def sysSigreturnNr : Reg := 46

/-- The calls that `signal_should_restart` may restart: `read`, `write`, `wait`, `ioctl`, `sleep`. -/
def restartable : List Reg := [2, 1, 6, 42, 9]

/-- `syscall_dispatch` of a `sigreturn`, up to the delivery of further signals; `restart` is what
`signal_should_restart` finds in the actions. -/
def dispatchSigreturn (restart : Bool) (f : InterruptFrame) (p : SigProcess) (u : UserMemory) :
    Option (InterruptFrame × SigProcess) :=
  let nr := f.rax
  match sysSigreturn f p u with
  | none => none
  | some (ret, f, p) =>
    if ret = -4 ∧ nr ∈ restartable ∧ restart then
      some ({ f with rax := nr, rip := f.rip - 2 }, p)
    else some ({ f with rax := ret }, p)

end MyOS.Proc

/-! A handler's frame lies below the stack that it interrupts, and `sigreturn` restores what it holds,
or, whatever the user has written there, nothing that the user may not set. -/

namespace MyOS.Proc

open Library Memory

section Stack

variable {x rsp : Reg}

lemma toNat_align : (x &&& ~~~(15 : Reg)).toNat = x.toNat / 16 * 16 := by
  have h : (~~~(15 : Reg)).toNat = 2 ^ 64 - 2 ^ 4 := rfl
  rw [BitVec.toNat_and, h]
  exact alignDown_eq x.isLt (by norm_num)

lemma toNat_below : (rsp - 128 - 168).toNat = (rsp.toNat + 2 ^ 64 - 296) % 2 ^ 64 := by
  have h128 : (128 : Reg).toNat = 128 := rfl
  have h168 : (168 : Reg).toNat = 168 := rfl
  rw [BitVec.toNat_sub, BitVec.toNat_sub, h128, h168]
  omega

lemma handlerRsp_spec (h : (handlerRsp rsp).toNat + 168 ≤ userSpaceEnd) :
    (handlerRsp rsp).toNat % 16 = 8 ∧ (handlerRsp rsp).toNat + 168 + 128 ≤ rsp.toNat ∧
      rsp.toNat < 2 ^ 47 := by
  have hend : userSpaceEnd = 0x7FFFFFFFF000 := rfl
  have h8 : (8 : Reg).toNat = 8 := rfl
  rw [handlerRsp, BitVec.toNat_sub, toNat_align, toNat_below, h8, hend] at h
  rw [handlerRsp, BitVec.toNat_sub, toNat_align, toNat_below, h8]
  omega

end Stack

section Memory

variable {u v : UserMemory} {addr : Reg} {len : ℕ} {write : Bool} {c : SigCtx} {r : Reg}

lemma userOk_range (h : u.userOk addr len write = true) (hl : len ≠ 0) (h64 : len < 2 ^ 63) :
    addr.toNat + len ≤ userSpaceEnd := by
  unfold UserMemory.userOk at h
  dsimp only at h
  rw [if_neg hl] at h
  split_ifs at h with hr
  simp only [not_or, not_lt, isUserAddress, decide_eq_true_eq] at hr
  omega

lemma SigCtx.ofWord_congr {w w' : ℕ → Reg} (h : ∀ k < 20, w k = w' k) :
    SigCtx.ofWord w = SigCtx.ofWord w' := by
  simp [SigCtx.ofWord, h]

lemma SigCtx.load_congr {bytes bytes' : ℕ → UInt8} {a : ℕ}
    (h : ∀ x, a ≤ x → x < a + 160 → bytes' x = bytes x) :
    SigCtx.load bytes' a = SigCtx.load bytes a := by
  apply SigCtx.ofWord_congr
  intro k hk
  rw [Bytes.read_congr fun x hx hx' => h x (by omega) (by omega)]

lemma SigCtx.load_writeWords {bytes : ℕ → UInt8} {a : ℕ} :
    SigCtx.load (Bytes.writeWords bytes a ((r :: c.words).map BitVec.toNat)) (a + 8) = c := by
  have hc : c = SigCtx.ofWord fun k => c.words.getD k 0 := rfl
  conv_rhs => rw [hc]
  apply SigCtx.ofWord_congr
  intro k hk
  have hk1 : k + 1 < ((r :: c.words).map BitVec.toNat).length := by
    simpa using (show k < c.words.length from hk)
  have hat : a + 8 + 8 * k = a + 8 * (k + 1) := by ring
  have hget : ((r :: c.words).map BitVec.toNat)[k + 1] = (c.words.getD k 0).toNat := by
    simp [show k < c.words.length from hk]
  rw [hat, Bytes.read_writeWords hk1, hget, BitVec.ofNat_toNat, BitVec.setWidth_eq]
  rw [hget]
  exact (c.words.getD k 0).isLt

end Memory

section Frame

variable {f g : InterruptFrame} {sig : ℕ} {act : SigAction} {p q : SigProcess}
  {u v : UserMemory}

def InterruptFrame.general (f : InterruptFrame) : List Reg :=
  [f.r15, f.r14, f.r13, f.r12, f.r11, f.r10, f.r9, f.r8, f.rbp, f.rdi, f.rsi, f.rdx, f.rcx, f.rbx,
    f.rax]

lemma setupFrame_spec (h : setupFrame f sig act p u = some (g, q, v)) :
    g.rsp = handlerRsp f.rsp ∧ u.userOk g.rsp 168 true ∧
      v.bytes = Bytes.writeWords u.bytes g.rsp.toNat
        ((act.restorer :: (f.saved p sig).words).map BitVec.toNat) := by
  unfold setupFrame UserMemory.copyFrame at h
  split at h
  · cases h
  dsimp only at h
  by_cases hok : u.userOk (handlerRsp f.rsp) 168 true
  · rw [if_pos hok] at h
    rw [Option.some.injEq, Prod.mk.injEq, Prod.mk.injEq] at h
    obtain ⟨rfl, -, rfl⟩ := h
    exact ⟨rfl, hok, rfl⟩
  · rw [if_neg hok] at h
    cases h

def InterruptFrame.restored (f : InterruptFrame) (c : SigCtx) : InterruptFrame :=
  { f with
    r15 := c.r15, r14 := c.r14, r13 := c.r13, r12 := c.r12, r11 := c.r11, r10 := c.r10,
    r9 := c.r9, r8 := c.r8, rbp := c.rbp, rdi := c.rdi, rsi := c.rsi, rdx := c.rdx,
    rcx := c.rcx, rbx := c.rbx, rax := c.rax, rip := c.rip, rsp := c.rsp,
    rflags := c.rflags &&& userFlags ||| (1 : Reg) <<< 9 ||| (1 : Reg) <<< 1,
    vector := forceIretVector }

def SigCtx.Canonical (c : SigCtx) : Prop :=
  c.rip < 0x0000800000000000 ∧ c.rsp < 0x0000800000000000

instance (c : SigCtx) : Decidable c.Canonical := by
  unfold SigCtx.Canonical
  infer_instance

lemma dispatchSigreturn_eq {restart : Bool} (hnr : f.rax = sysSigreturnNr) :
    dispatchSigreturn restart f p u =
      if u.userOk f.rsp 160 false then
        let c := SigCtx.load u.bytes f.rsp.toNat
        if c.Canonical then
          some (f.restored c, { p with sigBlocked := c.mask.setWidth 32 &&& ~~~unblockableBits })
        else none
      else none := by
  unfold dispatchSigreturn sysSigreturn UserMemory.copyCtx
  by_cases hok : u.userOk f.rsp 160 false
  · rw [if_pos hok, if_pos hok]
    dsimp only
    by_cases hc : (SigCtx.load u.bytes f.rsp.toNat).Canonical
    · have hn : ¬ ((SigCtx.load u.bytes f.rsp.toNat).rip ≥ 0x0000800000000000 ∨
          (SigCtx.load u.bytes f.rsp.toNat).rsp ≥ 0x0000800000000000) := by
        rw [not_or, ge_iff_le, ge_iff_le, BitVec.not_le, BitVec.not_le]
        exact hc
      rw [if_neg hn, if_pos hc]
      dsimp only
      have hnr' : sysSigreturnNr ∉ restartable := by decide
      rw [hnr, if_neg fun h => hnr' h.2.1]
      rfl
    · have hn : (SigCtx.load u.bytes f.rsp.toNat).rip ≥ 0x0000800000000000 ∨
          (SigCtx.load u.bytes f.rsp.toNat).rsp ≥ 0x0000800000000000 := by
        by_contra hn
        rw [not_or, ge_iff_le, ge_iff_le, BitVec.not_le, BitVec.not_le] at hn
        exact hc hn
      rw [if_pos hn, if_neg hc]
  · rw [if_neg hok, if_neg hok]

lemma restored_rflags {c : SigCtx} :
    (f.restored c).rflags &&& userFlags = c.rflags &&& userFlags := by
  change (c.rflags &&& userFlags ||| (1 : Reg) <<< 9 ||| (1 : Reg) <<< 1) &&& userFlags = _
  rw [or_and_of_disjoint (by decide), or_and_of_disjoint (by decide), BitVec.and_assoc,
    BitVec.and_self]

lemma restored_rflags_safe {c : SigCtx} : (f.restored c).rflags &&& (1 : Reg) <<< 9 ≠ 0 ∧
    (f.restored c).rflags &&& ~~~(userFlags ||| (1 : Reg) <<< 9 ||| (1 : Reg) <<< 1) = 0 := by
  change (c.rflags &&& userFlags ||| (1 : Reg) <<< 9 ||| (1 : Reg) <<< 1) &&& _ ≠ 0 ∧
    (c.rflags &&& userFlags ||| (1 : Reg) <<< 9 ||| (1 : Reg) <<< 1) &&& _ = 0
  constructor
  · rw [or_and_of_disjoint (by decide), BitVec.and_or_distrib_right,
      and_and_of_disjoint (by decide)]
    decide
  · rw [or_and_of_disjoint (by decide), or_and_of_disjoint (by decide),
      and_and_of_disjoint (by decide)]

lemma sigreturn_setupFrame (hp : p.sigBlocked &&& unblockableBits = 0)
    (h : setupFrame f sig act p u = some (g, q, v)) :
    g.rsp.toNat % 16 = 8 ∧ g.rsp.toNat + 168 ≤ f.rsp.toNat - 128 ∧
      (∀ a, v.bytes a ≠ u.bytes a → g.rsp.toNat ≤ a ∧ a < g.rsp.toNat + 168) ∧
      ∀ f' p' u' restart, f'.rax = sysSigreturnNr → f'.rsp = g.rsp + 8 →
        (∀ a, g.rsp.toNat + 8 ≤ a → a < g.rsp.toNat + 168 → u'.bytes a = v.bytes a) →
        u'.userOk f'.rsp 160 false = true →
        if f.rip < 0x0000800000000000 then
          ∃ e r, dispatchSigreturn restart f' p' u' = some (e, r) ∧ e.general = f.general ∧
            e.rip = f.rip ∧ e.rsp = f.rsp ∧ e.rflags &&& userFlags = f.rflags &&& userFlags ∧
            r.sigBlocked = p.sigBlocked
        else dispatchSigreturn restart f' p' u' = none := by
  obtain ⟨hrsp, hok, hbytes⟩ := setupFrame_spec h
  have hrange := userOk_range hok (by norm_num) (by norm_num)
  rw [hrsp] at hrange
  obtain ⟨hmod, hbelow, hcanon⟩ := handlerRsp_spec hrange
  rw [← hrsp] at hmod hbelow hrange
  refine ⟨hmod, by omega, fun a ha => ?_, fun f' p' u' restart hnr hsp hsame hok' => ?_⟩
  · by_contra hout
    refine ha ?_
    rw [hbytes]
    exact Bytes.writeWords_of_not_mem hout
  · have hat : f'.rsp.toNat = g.rsp.toNat + 8 := by
      have h8 : (8 : Reg).toNat = 8 := rfl
      rw [hsp, BitVec.toNat_add, h8]
      omega
    have hctx : SigCtx.load u'.bytes f'.rsp.toNat = f.saved p sig := by
      rw [hat, SigCtx.load_congr fun x hx hx' => hsame x hx (by omega), hbytes]
      exact SigCtx.load_writeWords
    rw [dispatchSigreturn_eq hnr, if_pos hok', hctx]
    dsimp only
    have hrsp47 : f.rsp < 0x0000800000000000 := by
      rw [BitVec.lt_def]
      exact hcanon
    by_cases hrip : f.rip < 0x0000800000000000
    · rw [if_pos hrip, if_pos ⟨hrip, hrsp47⟩]
      refine ⟨_, _, rfl, rfl, rfl, rfl, restored_rflags, ?_⟩
      change (p.sigBlocked.setWidth 64).setWidth 32 &&& ~~~unblockableBits = p.sigBlocked
      rw [BitVec.setWidth_setWidth_of_le _ (by norm_num), BitVec.setWidth_eq]
      exact and_not_of_disjoint hp
    · rw [if_neg hrip, if_neg fun hc => hrip hc.1]

lemma dispatchSigreturn_safe {restart : Bool} {e : InterruptFrame} {r : SigProcess}
    (hnr : f.rax = sysSigreturnNr) (h : dispatchSigreturn restart f p u = some (e, r)) :
    e.rip < 0x0000800000000000 ∧ e.rsp < 0x0000800000000000 ∧
      e.rflags &&& (1 : Reg) <<< 9 ≠ 0 ∧
      e.rflags &&& ~~~(userFlags ||| (1 : Reg) <<< 9 ||| (1 : Reg) <<< 1) = 0 ∧
      r.sigBlocked &&& unblockableBits = 0 := by
  rw [dispatchSigreturn_eq hnr] at h
  dsimp only at h
  split_ifs at h with hok hc
  rw [Option.some.injEq, Prod.mk.injEq] at h
  obtain ⟨rfl, rfl⟩ := h
  refine ⟨hc.1, hc.2, restored_rflags_safe.1, restored_rflags_safe.2, ?_⟩
  rw [BitVec.and_assoc, BitVec.not_and_self]
  exact BitVec.and_zero

end Frame

def Unmodified (g : InterruptFrame) (v : UserMemory) (f' : InterruptFrame) (u' : UserMemory) :
    Prop :=
  f'.rax = sysSigreturnNr ∧ f'.rsp = g.rsp + 8 ∧ u'.userOk f'.rsp 160 false = true ∧
    ∀ a, g.rsp.toNat + 8 ≤ a → a < g.rsp.toNat + 168 → u'.bytes a = v.bytes a

theorem signal_frame (f : InterruptFrame) (sig : ℕ) (act : SigAction) (p : SigProcess)
    (u : UserMemory) (restart : Bool) :
    (∀ g q v, p.sigBlocked &&& unblockableBits = 0 → setupFrame f sig act p u = some (g, q, v) →
      g.rsp.toNat % 16 = 8 ∧ g.rsp.toNat + 168 ≤ f.rsp.toNat - 128 ∧
        (∀ a, v.bytes a ≠ u.bytes a → g.rsp.toNat ≤ a ∧ a < g.rsp.toNat + 168) ∧
        ∀ f' p' u', Unmodified g v f' u' →
          if f.rip < 0x0000800000000000 then
            ∃ e r, dispatchSigreturn restart f' p' u' = some (e, r) ∧ e.general = f.general ∧
              e.rip = f.rip ∧ e.rsp = f.rsp ∧ e.rflags &&& userFlags = f.rflags &&& userFlags ∧
              r.sigBlocked = p.sigBlocked
          else dispatchSigreturn restart f' p' u' = none) ∧
      (f.rax = sysSigreturnNr → ∀ e r, dispatchSigreturn restart f p u = some (e, r) →
        e.rip < 0x0000800000000000 ∧ e.rsp < 0x0000800000000000 ∧
          e.rflags &&& (1 : Reg) <<< 9 ≠ 0 ∧
          e.rflags &&& ~~~(userFlags ||| (1 : Reg) <<< 9 ||| (1 : Reg) <<< 1) = 0 ∧
          r.sigBlocked &&& unblockableBits = 0) := by
  constructor
  · intro g q v hp h
    obtain ⟨hmod, hbelow, hwritten, hret⟩ := sigreturn_setupFrame hp h
    exact ⟨hmod, hbelow, hwritten, fun f' p' u' hu =>
      hret f' p' u' restart hu.1 hu.2.1 hu.2.2.2 hu.2.2.1⟩
  · exact fun hnr e r h => dispatchSigreturn_safe hnr h

section Examples

def interrupted (rip : Reg) : InterruptFrame where
  r15 := 15
  r14 := 14
  r13 := 13
  r12 := 12
  r11 := 11
  r10 := 10
  r9 := 9
  r8 := 8
  rbp := 0x10040
  rdi := 1
  rsi := 2
  rdx := 3
  rcx := 4
  rbx := 5
  rax := 6
  vector := 14
  errorCode := 0
  rip := rip
  cs := 0x23
  rflags := 0x246
  rsp := 0x10000
  ss := 0x1B

def segvAction : SigAction where
  handler := 0x401000
  flags := saRestorer
  restorer := 0x402000
  mask := 0

def oneProcess : SigProcess where
  sigBlocked := 0
  sigActions _ := segvAction

def allMapped : UserMemory where
  bytes _ := 0
  page _ _ := true

lemma interrupted_setupFrame (rip : Reg) : ∃ g q v,
    setupFrame (interrupted rip) 11 segvAction oneProcess allMapped = some (g, q, v) ∧
      Unmodified g v { g with rax := sysSigreturnNr, rsp := g.rsp + 8 } v := by
  have hact : ¬ (¬ (segvAction.flags &&& saRestorer ≠ 0) ∨ segvAction.restorer = 0) := by
    decide
  have hok : allMapped.userOk (handlerRsp (interrupted rip).rsp) 168 true = true := by
    change allMapped.userOk (handlerRsp 0x10000) 168 true = true
    decide
  unfold setupFrame UserMemory.copyFrame
  rw [if_neg hact]
  dsimp only
  rw [if_pos hok]
  refine ⟨_, _, _, rfl, rfl, rfl, ?_, fun _ _ _ => rfl⟩
  change allMapped.userOk (handlerRsp 0x10000 + 8) 160 false = true
  decide

theorem signal_frame_interrupted : ∃ e r g q v f',
    setupFrame (interrupted 0x400000) 11 segvAction oneProcess allMapped = some (g, q, v) ∧
      dispatchSigreturn false f' q v = some (e, r) ∧ e.rip = 0x400000 := by
  obtain ⟨g, q, v, h, hu⟩ := interrupted_setupFrame 0x400000
  have hf := (signal_frame (interrupted 0x400000) 11 segvAction oneProcess allMapped false).1 g q v
    (by decide) h
  have hret := hf.2.2.2 _ q v hu
  rw [if_pos (by decide)] at hret
  obtain ⟨e, r, he, -, hrip, -⟩ := hret
  exact ⟨e, r, g, q, v, _, h, he, hrip⟩

theorem not_restored : ¬ ∀ f sig act p u g q v, p.sigBlocked &&& unblockableBits = 0 →
    setupFrame f sig act p u = some (g, q, v) → ∀ f' u', Unmodified g v f' u' →
      ∃ e r, dispatchSigreturn false f' q u' = some (e, r) ∧ e.rip = f.rip := by
  intro hall
  obtain ⟨g, q, v, h, hu⟩ := interrupted_setupFrame 0xFFFF800000000000
  obtain ⟨e, r, he, -⟩ := hall _ _ _ _ _ g q v (by decide) h _ v hu
  obtain ⟨-, -, -, hret⟩ := sigreturn_setupFrame (by decide) h
  have hnone := hret _ q v false hu.1 hu.2.1 hu.2.2.2 hu.2.2.1
  rw [if_neg (by decide), he] at hnone
  cases hnone

end Examples

end MyOS.Proc
