import SeekOs.Base.Kmemory
import SeekOs.Base.Semaphore
import SeekOs.Base.Spinlock
import SeekOs.Fat32.EmptyFiles
import SeekOs.Fat32.Reading
import SeekOs.Fat32.Removal
import SeekOs.Fat32.RootCheck
import SeekOs.Fat32.Traversal
import SeekOs.Fat32.Writing
import SeekOs.Fs.PathBuffers
import SeekOs.Fs.RamfsPositions
import SeekOs.Fs.Readdir
import SeekOs.Fs.TtyLine
import SeekOs.Mm.BootMap
import SeekOs.Mm.FrameConservation
import SeekOs.Mm.KernelAreas
import SeekOs.Mm.KernelHeap
import SeekOs.Mm.MmCopyCorrectness
import SeekOs.Mm.PmmGuard
import SeekOs.Mm.PmmReads
import SeekOs.Mm.RecursiveWindow
import SeekOs.Mm.UserSpace
import SeekOs.Proc.ArgBlocks
import SeekOs.Proc.ElfLoad
import SeekOs.Proc.KeventDelivery
import SeekOs.Proc.Reaping
import SeekOs.Proc.SyscallStack
import SeekOs.System.IoapicPins
import SeekOs.System.TscCalibration
