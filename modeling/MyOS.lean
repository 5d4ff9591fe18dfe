import MyOS.Acpi.Tables
import MyOS.Arch.SmpRuns
import MyOS.Arch.Spinlock
import MyOS.Boot.InfoBlockRuns
import MyOS.Drivers.AtaRuns
import MyOS.Drivers.Keyboard
import MyOS.Drivers.PciInit
import MyOS.Drivers.Tty
import MyOS.Drivers.VtRuns
import MyOS.Emulator.Aniq
import MyOS.Emulator.Konsol
import MyOS.Emulator.Yopishish
import MyOS.Emulator.Yuklash
import MyOS.Fs.Append
import MyOS.Fs.BufferCoherence
import MyOS.Fs.DirTreeRuns
import MyOS.Fs.Ext2.ReaddirRuns
import MyOS.Fs.Ext2.RenameAtomic
import MyOS.Fs.Ext2.TruncateRoots
import MyOS.Fs.IcacheRuns
import MyOS.Fs.InitrdArchive
import MyOS.Fs.InodeRefsRuns
import MyOS.Fs.MountRuns
import MyOS.Fs.MountTreeRuns
import MyOS.Fs.PartitionTable
import MyOS.Fs.Pipe
import MyOS.Fs.RawWrite
import MyOS.Fs.TmpfsScan
import MyOS.Fs.VolumeRuns
import MyOS.Fs.WorkingDir
import MyOS.Kadrlar.Ikkilik
import MyOS.Kadrlar.Parallel
import MyOS.Memory.DirectMap
import MyOS.Memory.DoubleFree
import MyOS.Memory.FreeArea
import MyOS.Memory.KmallocRuns
import MyOS.Memory.MemblockRuns
import MyOS.Memory.SbrkRuns
import MyOS.Memory.PrivateMemories
import MyOS.Memory.UnmapExact
import MyOS.Memory.VmallocCpus
import MyOS.Memory.VmallocRuns
import MyOS.Mfs.UzilishRuns
import MyOS.Proc.Alarm
import MyOS.Proc.DescriptorsRuns
import MyOS.Proc.LifecycleRuns
import MyOS.Proc.Mutex
import MyOS.Proc.Restart
import MyOS.Proc.SigFrame
import MyOS.Proc.SignalRuns
import MyOS.Proc.UserStack
import MyOS.User.Cksum
import MyOS.User.Copy
import MyOS.User.Edit.Coloring
import MyOS.User.Edit.Files
import MyOS.User.Edit.KeysRuns
import MyOS.User.Grep
import MyOS.User.Malloc
import MyOS.User.Printf
import MyOS.User.Qsort
import MyOS.User.RmRuns
import MyOS.User.Shell.Arguments
import MyOS.User.Shell.EditLineRuns
import MyOS.User.Shell.Glob
import MyOS.User.Shell.RunLine
import MyOS.User.Strtol
import MyOS.User.Time
