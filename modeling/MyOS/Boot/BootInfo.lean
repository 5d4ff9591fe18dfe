import MyOS.Library.Reading

/-! The boot loader's tags, and the copy of the memory map and the modules that is taken from them. -/

namespace MyOS.Boot

def bootMaxMmap : ℕ := 128
def bootMaxModules : ℕ := 8
def mb2BootloaderMagic : UInt32 := 0x36d76289

inductive MemType
  | usable
  | reserved
  | acpiReclaim
  | acpiNvs
  | bad
  deriving DecidableEq, Repr

def MemType.ofCode (c : UInt32) : MemType :=
  if c = 1 then .usable else if c = 3 then .acpiReclaim else if c = 4 then .acpiNvs else
    if c = 5 then .bad else .reserved

structure Mb2MmapEntry where
  addr : UInt64
  len : UInt64
  type : UInt32
  deriving DecidableEq, Repr

inductive Mb2Tag
  | stop
  | module (modStart modEnd : UInt32)
  | mmap (entries : List Mb2MmapEntry)
  | other
  deriving DecidableEq, Repr

structure MemRegion where
  base : ℕ
  len : ℕ
  type : MemType
  deriving DecidableEq, Repr

structure BootModule where
  physStart : ℕ
  physEnd : ℕ
  deriving DecidableEq, Repr

structure BootInfo where
  mmap : List MemRegion := []
  modules : List BootModule := []
  mbiPhys : ℕ
  mbiSize : ℕ
  deriving DecidableEq, Repr

namespace BootInfo

def parseMmap : List Mb2MmapEntry → BootInfo → BootInfo
  | [], bi => bi
  | e :: es, bi =>
    if bi.mmap.length = bootMaxMmap then bi
    else if e.len = 0 then parseMmap es bi
    else parseMmap es
      { bi with mmap := bi.mmap ++ [⟨e.addr.toNat, e.len.toNat, MemType.ofCode e.type⟩] }

def parseModule (bi : BootInfo) (modStart modEnd : UInt32) : BootInfo :=
  if bi.modules.length < bootMaxModules then
    { bi with modules := bi.modules ++ [⟨modStart.toNat, modEnd.toNat⟩] }
  else bi

def parseTags : List Mb2Tag → BootInfo → BootInfo
  | [], bi => bi
  | .stop :: _, bi => bi
  | .module modStart modEnd :: ts, bi => parseTags ts (bi.parseModule modStart modEnd)
  | .mmap es :: ts, bi => parseTags ts (bi.parseMmap es)
  | .other :: ts, bi => parseTags ts bi

/-- `none` is a panic. -/
def parse (magic mbiPhys totalSize : UInt32) (tags : List Mb2Tag) : Option BootInfo :=
  if magic ≠ mb2BootloaderMagic then none
  else if mbiPhys % 8 ≠ 0 then none
  else
    let bi := parseTags tags { mbiPhys := mbiPhys.toNat, mbiSize := totalSize.toNat }
    if bi.mmap = [] then none else some bi

structure Bounded (bi : BootInfo) : Prop where
  mmap : ∀ m ∈ bi.mmap, m.base < 2 ^ 64 ∧ m.len < 2 ^ 64
  modules : ∀ m ∈ bi.modules, m.physStart < 2 ^ 32 ∧ m.physEnd < 2 ^ 32
  mbi : bi.mbiPhys < 2 ^ 32 ∧ bi.mbiSize < 2 ^ 32

variable {bi bi' : BootInfo}

lemma Bounded.parseMmap {es : List Mb2MmapEntry} (h : bi.Bounded) :
    (bi.parseMmap es).Bounded := by
  induction es generalizing bi with
  | nil => exact h
  | cons e es ih =>
    rw [BootInfo.parseMmap]
    split
    · exact h
    split
    · exact ih h
    · refine ih ⟨fun m hm => ?_, h.modules, h.mbi⟩
      rcases List.mem_append.1 hm with hm | hm
      · exact h.mmap m hm
      · obtain rfl := List.mem_singleton.1 hm
        exact ⟨e.addr.toNat_lt, e.len.toNat_lt⟩

lemma Bounded.parseModule {modStart modEnd : UInt32} (h : bi.Bounded) :
    (bi.parseModule modStart modEnd).Bounded := by
  rw [BootInfo.parseModule]
  split
  · refine ⟨h.mmap, fun m hm => ?_, h.mbi⟩
    rcases List.mem_append.1 hm with hm | hm
    · exact h.modules m hm
    · obtain rfl := List.mem_singleton.1 hm
      exact ⟨modStart.toNat_lt, modEnd.toNat_lt⟩
  · exact h

lemma Bounded.parseTags {ts : List Mb2Tag} (h : bi.Bounded) : (parseTags ts bi).Bounded := by
  induction ts generalizing bi with
  | nil => exact h
  | cons t ts ih =>
    cases t with
    | stop => exact h
    | module => exact ih h.parseModule
    | mmap => exact ih h.parseMmap
    | other => exact ih h

lemma parse_bounded {magic mbiPhys totalSize : UInt32} {tags : List Mb2Tag}
    (h : parse magic mbiPhys totalSize tags = some bi) : bi.Bounded := by
  have hinit : ({ mbiPhys := mbiPhys.toNat, mbiSize := totalSize.toNat } : BootInfo).Bounded :=
    ⟨by simp, by simp, mbiPhys.toNat_lt, totalSize.toNat_lt⟩
  simp only [parse] at h
  split_ifs at h
  cases h
  exact hinit.parseTags

end BootInfo

end MyOS.Boot

/-! The bytes of the boot loader's block, which `bootinfo_parse` reads tag by tag. -/

namespace MyOS.Boot.InfoBlock

open Library

def bootCmdlineMax : ℕ := 256

def rsdpMax : ℕ := 36

structure ModuleCopy where
  physStart : ℕ
  physEnd : ℕ
  name : List UInt8
  deriving DecidableEq, Repr

structure BootFramebuffer where
  present : Bool := false
  textMode : Bool := false
  phys : ℕ := 0
  pitch : ℕ := 0
  width : ℕ := 0
  height : ℕ := 0
  bpp : ℕ := 0
  redPos : ℕ := 0
  redSize : ℕ := 0
  greenPos : ℕ := 0
  greenSize : ℕ := 0
  bluePos : ℕ := 0
  blueSize : ℕ := 0
  deriving DecidableEq, Repr

structure BootInfo where
  cmdline : List UInt8 := []
  bootloader : List UInt8 := []
  mmap : List MemRegion := []
  modules : List ModuleCopy := []
  fb : BootFramebuffer := {}
  rsdp : List UInt8 := List.replicate rsdpMax 0
  rsdpPresent : Bool := false
  mbiPhys : ℕ := 0
  mbiSize : ℕ := 0
  deriving DecidableEq, Repr

def strlenRound (src i : ℕ) : Looping (ℕ ⊕ ℕ) := do
  let c ← Reading.read (src + i) 1
  if c = 0 then pure (.inr i) else pure (.inl (i + 1))

def strlen (src : ℕ) : Looping ℕ := Looping.loop (strlenRound src) 0

def strlcpy (src size : ℕ) : Looping (List UInt8) := do
  let len ← strlen src
  Reading.load src (if len < size - 1 then len else size - 1)

def mmapRound (t stop : ℕ) : ℕ × List MemRegion → Looping ((ℕ × List MemRegion) ⊕ List MemRegion)
  | (p, mmap) => do
    let entrySize ← Reading.read (t + 8) 4
    if p + entrySize ≤ stop then
      if mmap.length = bootMaxMmap then pure (.inr mmap)
      else do
        let len ← Reading.read (p + 8) 8
        if len = 0 then pure (.inl (p + entrySize, mmap))
        else do
          let base ← Reading.read p 8
          let type ← Reading.read (p + 16) 4
          pure (.inl (p + entrySize, mmap ++ [⟨base, len, MemType.ofCode (UInt32.ofNat type)⟩]))
    else pure (.inr mmap)

def parseMmap (t : ℕ) (bi : BootInfo) : Looping BootInfo := do
  let size ← Reading.read (t + 4) 4
  let mmap ← Looping.loop (mmapRound t (t + size)) (t + 16, bi.mmap)
  pure { bi with mmap := mmap }

def parseModule (t : ℕ) (bi : BootInfo) : Looping BootInfo :=
  if bi.modules.length < bootMaxModules then do
    let modStart ← Reading.read (t + 8) 4
    let modEnd ← Reading.read (t + 12) 4
    let name ← strlcpy (t + 16) 64
    pure { bi with modules := bi.modules ++ [⟨modStart, modEnd, name⟩] }
  else pure bi

def parseColours (t : ℕ) (fb : BootFramebuffer) : Reading BootFramebuffer := do
  let redPos ← Reading.read (t + 32) 1
  let redSize ← Reading.read (t + 33) 1
  let greenPos ← Reading.read (t + 34) 1
  let greenSize ← Reading.read (t + 35) 1
  let bluePos ← Reading.read (t + 36) 1
  let blueSize ← Reading.read (t + 37) 1
  pure { fb with
    present := true, redPos := redPos, redSize := redSize, greenPos := greenPos, greenSize := greenSize
    bluePos := bluePos, blueSize := blueSize }

def parseFramebuffer (t : ℕ) (bi : BootInfo) : Reading BootInfo := do
  let phys ← Reading.read (t + 8) 8
  let pitch ← Reading.read (t + 16) 4
  let width ← Reading.read (t + 20) 4
  let height ← Reading.read (t + 24) 4
  let bpp ← Reading.read (t + 28) 1
  let fbType ← Reading.read (t + 29) 1
  let fb := { bi.fb with phys := phys, pitch := pitch, width := width, height := height, bpp := bpp }
  if fbType = 2 then pure { bi with fb := { fb with present := true, textMode := true } }
  else if fbType = 1 ∧ (bpp = 32 ∨ bpp = 24) then do
    let fb ← parseColours t fb
    pure { bi with fb := fb }
  else pure { bi with fb := fb }

/-- `MIN(tag->size - 8, sizeof(boot_info.rsdp))`, whose subtraction is one of 32 bits. -/
def rsdpSize (size : ℕ) : ℕ := min ((size + 2 ^ 32 - 8) % 2 ^ 32) rsdpMax

def parseAcpi (t : ℕ) (old : Bool) (bi : BootInfo) : Reading BootInfo :=
  if old ∧ bi.rsdpPresent then pure bi
  else do
    let size ← Reading.read (t + 4) 4
    let rsdp ← Reading.load (t + 8) (rsdpSize size)
    pure { bi with rsdp := rsdp ++ bi.rsdp.drop (rsdpSize size), rsdpPresent := true }

def parseTag (t : ℕ) (bi : BootInfo) : ℕ → Looping BootInfo
  | 1 => do
    let cmdline ← strlcpy (t + 8) bootCmdlineMax
    pure { bi with cmdline := cmdline }
  | 2 => do
    let bootloader ← strlcpy (t + 8) 64
    pure { bi with bootloader := bootloader }
  | 3 => parseModule t bi
  | 6 => parseMmap t bi
  | 8 => parseFramebuffer t bi
  | 14 => parseAcpi t true bi
  | 15 => parseAcpi t false bi
  | _ => pure bi

def tagStep (size : ℕ) : ℕ := (size + 7) % 2 ^ 32 / 8 * 8

def tagRound (stop : ℕ) : ℕ × BootInfo → Looping ((ℕ × BootInfo) ⊕ BootInfo)
  | (p, bi) =>
    if p + 8 ≤ stop then do
      let type ← Reading.read p 4
      if type = 0 then pure (.inr bi)
      else do
        let bi ← parseTag p bi type
        let size ← Reading.read (p + 4) 4
        pure (.inl (p + tagStep size, bi))
    else pure (.inr bi)

inductive Outcome
  | panic (bi : BootInfo)
  | returned (bi : BootInfo)

def Outcome.info : Outcome → BootInfo
  | panic bi => bi
  | returned bi => bi

def bootinfoParse (magic : UInt32) (mbiPhys : ℕ) : Looping Outcome :=
  if magic ≠ mb2BootloaderMagic then pure (.panic {})
  else if mbiPhys % 8 ≠ 0 then pure (.panic {})
  else do
    let totalSize ← Reading.read 0 4
    let bi ← Looping.loop (tagRound totalSize) (8, { mbiPhys := mbiPhys, mbiSize := totalSize })
    if bi.mmap = [] then pure (.panic bi) else pure (.returned bi)

end MyOS.Boot.InfoBlock
