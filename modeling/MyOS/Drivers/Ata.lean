import MyOS.Fs.Partition
import MyOS.Library.System

/-! Two drives on one ATA channel: `blk_rw` and `ata_rw`, each port access one step. -/

namespace MyOS.Drivers

open Library Fs Function

structure AtaDrive where
  lba48 : Bool
  sectors : ℕ
  fits : sectors ≤ if lba48 then 2 ^ 48 else 2 ^ 28

structure BlkCall where
  slave : Bool
  write : Bool
  lba : ℕ
  count : ℕ
  buf : ℕ → UInt16
  lba_lt : lba < 2 ^ 64
  count_lt : count < 2 ^ 32

inductive Reg
  | seccount
  | lbaLo
  | lbaMid
  | lbaHi
  | drive
  deriving DecidableEq

/-- The registers of the channel, which both drives see: all but `drive` keep the last byte written
and the one before it. -/
structure TaskFile where
  drive : ℕ
  seccount : ℕ × ℕ
  lbaLo : ℕ × ℕ
  lbaMid : ℕ × ℕ
  lbaHi : ℕ × ℕ

namespace TaskFile

variable (r : TaskFile)

def outb : Reg × ℕ → TaskFile
  | (.drive, v) => { r with drive := v }
  | (.seccount, v) => { r with seccount := (v, r.seccount.1) }
  | (.lbaLo, v) => { r with lbaLo := (v, r.lbaLo.1) }
  | (.lbaMid, v) => { r with lbaMid := (v, r.lbaMid.1) }
  | (.lbaHi, v) => { r with lbaHi := (v, r.lbaHi.1) }

def slave : Bool := r.drive / 16 % 2 = 1

def lba (ext : Bool) : ℕ :=
  if ext then
    r.lbaLo.1 + r.lbaMid.1 * 2 ^ 8 + r.lbaHi.1 * 2 ^ 16 +
      r.lbaLo.2 * 2 ^ 24 + r.lbaMid.2 * 2 ^ 32 + r.lbaHi.2 * 2 ^ 40
  else
    r.lbaLo.1 + r.lbaMid.1 * 2 ^ 8 + r.lbaHi.1 * 2 ^ 16 + r.drive % 16 * 2 ^ 24

def sectors (ext : Bool) : ℕ :=
  if ext then
    let n := r.seccount.1 + r.seccount.2 * 2 ^ 8
    if n = 0 then 65536 else n
  else if r.seccount.1 = 0 then 256 else r.seccount.1

end TaskFile

def setupLba (lba48 slave : Bool) (lba count : ℕ) : List (Reg × ℕ) :=
  if lba48 then
    [(.drive, 0x40 ||| (slave.toNat <<< 4)),
      (.seccount, (count >>> 8) % 256), (.lbaLo, (lba >>> 24) % 256),
      (.lbaMid, (lba >>> 32) % 256), (.lbaHi, (lba >>> 40) % 256),
      (.seccount, count % 256), (.lbaLo, lba % 256),
      (.lbaMid, (lba >>> 8) % 256), (.lbaHi, (lba >>> 16) % 256)]
  else
    [(.drive, 0xE0 ||| (slave.toNat <<< 4) ||| ((lba >>> 24) &&& 0x0F)),
      (.seccount, count % 256), (.lbaLo, lba % 256),
      (.lbaMid, (lba >>> 8) % 256), (.lbaHi, (lba >>> 16) % 256)]

inductive DriveMode
  | idle
  | transfer (write : Bool) (pos stop : ℕ)
  deriving DecidableEq

def DriveMode.next (write : Bool) (pos stop : ℕ) : DriveMode :=
  if pos + 1 < stop then .transfer write (pos + 1) stop else .idle

/-- Where a call is: `pos` sectors were transferred by earlier commands, `k` writes of `setup_lba`
are done, `i` is the sector and `w` the word of the command. -/
inductive AtaPc
  | idle
  | skipped
  | ready (pos : ℕ)
  | setup (pos k : ℕ)
  | drq (pos i : ℕ)
  | data (pos i w : ℕ)
  | flush (pos : ℕ)
  | flushed (pos : ℕ)
  | done
  | failed

structure ChannelState (ι : Type) where
  regs : TaskFile
  mode : Bool → DriveMode
  disk : Bool → ℕ → UInt16
  lock : Bool → Option ι
  pc : ι → AtaPc
  read : ι → ℕ → UInt16

namespace ChannelState

variable {ι : Type} (s : ChannelState ι)

def inw : Option UInt16 :=
  match s.mode s.regs.slave with
  | .transfer false pos _ => some (s.disk s.regs.slave pos)
  | _ => none

def afterIn : ChannelState ι :=
  match s.mode s.regs.slave with
  | .transfer false pos stop =>
    { s with mode := update s.mode s.regs.slave (.next false pos stop) }
  | _ => s

def outw (v : UInt16) : ChannelState ι :=
  match s.mode s.regs.slave with
  | .transfer true pos stop =>
    { s with
      mode := update s.mode s.regs.slave (.next true pos stop)
      disk := update s.disk s.regs.slave
        (update (s.disk s.regs.slave) pos v) }
  | _ => s

end ChannelState

inductive AtaAction (ι : Type)
  | skip (c : ι)
  | start (c : ι)
  | poll (c : ι)
  | wait (c : ι)
  | outb (c : ι)
  | command (c : ι)
  | drq (c : ι)
  | insw (c : ι) (v : UInt16)
  | outsw (c : ι)
  | flush (c : ι)
  | flushed (c : ι)
  | finish (c : ι)

structure Channel (ι : Type) where
  drive : Bool → AtaDrive
  before : Bool → ℕ → UInt16
  call : ι → BlkCall

namespace Channel

variable {ι : Type} [DecidableEq ι] (C : Channel ι)

def lba48 (c : ι) : Bool := (C.drive (C.call c).slave).lba48

def request (c : ι) : Request :=
  (BlockDevice.disk (C.drive (C.call c).slave).sectors).rw (C.call c).lba (C.call c).count

def n (c : ι) (pos : ℕ) : ℕ := min 256 ((C.call c).count - pos)

def setup (c : ι) (pos : ℕ) : List (Reg × ℕ) :=
  setupLba (C.lba48 c) (C.call c).slave ((C.call c).lba + pos) (C.n c pos)

def after (c : ι) (pos i w : ℕ) : AtaPc :=
  if w + 1 < 256 then .data pos i (w + 1)
  else if i + 1 < C.n c pos then .drq pos (i + 1)
  else if (C.call c).write then .flush pos else .ready (pos + C.n c pos)

inductive Step : ChannelState ι → AtaAction ι → ChannelState ι → Prop
  -- nothing to transfer, or behind the end of the disk
  | skip {s c} (h : s.pc c = .idle) (hr : ∀ l n, C.request c ≠ .driver l n) :
      Step s (.skip c) { s with pc := update s.pc c .skipped }
  | start {s c l n} (h : s.pc c = .idle) (hr : C.request c = .driver l n)
      (hl : s.lock (C.call c).slave = none) :
      Step s (.start c)
        { s with
          pc := update s.pc c (.ready 0)
          lock := update s.lock (C.call c).slave (some c) }
  -- a read of ALT STATUS, or of STATUS while BSY is set
  | poll {s c} : Step s (.poll c) s
  | wait {s c pos} (h : s.pc c = .ready pos) (hp : pos < (C.call c).count) :
      Step s (.wait c) { s with pc := update s.pc c (.setup pos 0) }
  | outb {s c pos k v} (h : s.pc c = .setup pos k) (hv : (C.setup c pos)[k]? = some v) :
      Step s (.outb c)
        { s with
          pc := update s.pc c (.setup pos (k + 1))
          regs := s.regs.outb v }
  | command {s c pos k} (h : s.pc c = .setup pos k) (hk : (C.setup c pos).length ≤ k) :
      Step s (.command c)
        { s with
          pc := update s.pc c (.drq pos 0)
          mode := update s.mode s.regs.slave
            (.transfer (C.call c).write (s.regs.lba (C.lba48 c) * 256)
              ((s.regs.lba (C.lba48 c) + s.regs.sectors (C.lba48 c)) * 256)) }
  | drq {s c pos i} (h : s.pc c = .drq pos i) (hd : s.mode s.regs.slave ≠ .idle) :
      Step s (.drq c) { s with pc := update s.pc c (.data pos i 0) }
  | noDrq {s c pos i} (h : s.pc c = .drq pos i) (hd : s.mode s.regs.slave = .idle) :
      Step s (.drq c)
        { s with
          pc := update s.pc c .failed
          lock := update s.lock (C.call c).slave none }
  | insw {s c pos i w v} (h : s.pc c = .data pos i w) (hw : (C.call c).write = false)
      (hv : ∀ x, s.inw = some x → v = x) :
      Step s (.insw c v)
        { s.afterIn with
          pc := update s.pc c (C.after c pos i w)
          read := update s.read c
            (update (s.read c) ((pos + i) * 256 + w) v) }
  | outsw {s c pos i w} (h : s.pc c = .data pos i w) (hw : (C.call c).write = true) :
      Step s (.outsw c)
        { s.outw ((C.call c).buf ((pos + i) * 256 + w)) with
          pc := update s.pc c (C.after c pos i w) }
  -- a command ends a transfer of the selected drive
  | flush {s c pos} (h : s.pc c = .flush pos) :
      Step s (.flush c)
        { s with
          pc := update s.pc c (.flushed pos)
          mode := update s.mode s.regs.slave .idle }
  | flushed {s c pos} (h : s.pc c = .flushed pos) :
      Step s (.flushed c)
        { s with pc := update s.pc c (.ready (pos + C.n c pos)) }
  | finish {s c pos} (h : s.pc c = .ready pos) (hp : (C.call c).count ≤ pos) :
      Step s (.finish c)
        { s with
          pc := update s.pc c .done
          lock := update s.lock (C.call c).slave none }

def system : System (ChannelState ι) (AtaAction ι) where
  init s := s.disk = C.before ∧ (∀ d, s.lock d = none) ∧ ∀ c, s.pc c = .idle
  step := C.Step

end Channel

end MyOS.Drivers
