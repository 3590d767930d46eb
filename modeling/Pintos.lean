import Pintos.Kernel.HeapCalls
import Pintos.Sched.Fifo
import Pintos.Sync.Condition
import Pintos.Sync.Signals
import Pintos.Sync.Console
import Pintos.Sched.Overflow
import Pintos.Donation.Recall
import Pintos.Donation.HolderPresent
import Pintos.Donation.NoInversion
import Pintos.Donation.SetPriority
import Pintos.Devices.Bytes
import Pintos.Devices.Wakeup
import Pintos.Devices.Partition
import Pintos.Lib.ListCalls
import Pintos.Lib.ListSort
import Pintos.Lib.ArraySearch
import Pintos.Lib.Precision
import Pintos.Lib.Atoi
import Pintos.Lib.Ustar
import Pintos.Lib.Arithmetic
import Pintos.FileSys.BitmapCalls
import Pintos.FileSys.MapOnDisk
import Pintos.FileSys.Refinement
import Pintos.Devices.PartitionTable
import Pintos.Memory.Blocks
import Pintos.Memory.Palloc
