import MeowOs.Rfs2.Directory.LinkCounts
import MeowOs.Sync.AsyncRwLockSoundness
import MeowOs.Sync.RwSpinlock
import MeowOs.Sync.Arc
import MeowOs.Sync.AsyncSpinlock
import MeowOs.Clocks.EventTimer
import MeowOs.Proc.SyscallNamespace
import MeowOs.Tasks.ExecutorSoundness
import MeowOs.Vfs.SyscallSafety
import MeowOs.Memory.FrameConservation
import MeowOs.Memory.FreeAddressSpace
import MeowOs.Memory.RecycledFrames
import MeowOs.Proc.OwnPageTree
import MeowOs.Memory.UserPointers
import MeowOs.Net.Forwarding
import MeowOs.Net.FlowTermination
import MeowOs.Vfs.Mounts
import MeowOs.Proc.HandlerLocks
import MeowOs.Vfs.Linking
import MeowOs.Drivers.TransmitRing
import MeowOs.Memory.HeapAlignment
import MeowOs.Drivers.Tty
import MeowOs.Memory.AreaFlags
import MeowOs.Rfs2.SuperblockCopies
import MeowOs.Drivers.AhciCommands
import MeowOs.Proc.ContextInfo
