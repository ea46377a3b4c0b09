import McKernel.PageAlloc.ZeroAtFree
import McKernel.PageAlloc.Layout
import McKernel.Clone.Atomicity
import McKernel.CoreDump.Faithful
import McKernel.CpuSet.Partition
import McKernel.Devobj.Pages
import McKernel.ExecArgs.RoundTrip
import McKernel.FileObj.References
import McKernel.Futex.Wakeups
import McKernel.Ikc.Ownership
import McKernel.Mcctrl.ExactlyOnce
import McKernel.Offload.Wakeups
import McKernel.Pager.Boundaries
import McKernel.PageTable.Clear
import McKernel.Perf.Ticks
import McKernel.ProcessTree.Tree
import McKernel.ReadWritev.Contract
import McKernel.Sched.Coverage
import McKernel.Signal.Unblockable
import McKernel.Wait.Contract
import McKernel.Xpmem.Translation
import McKernel.FileMap.WriteBack
import McKernel.Reservation.Balance
import McKernel.Sysfs.Channel
import McKernel.Procfs.Lent
import McKernel.Exec.Atomic
import McKernel.RunQueue.Ordered
import McKernel.Procfs.Answer
import McKernel.Rusage.Exact
import McKernel.Rss.Exact
import McKernel.UserContext.Privilege
import McKernel.Numa.Placement
import McKernel.Bitmap.Sound
import McKernel.Time.Arithmetic
import McKernel.Vm.AccessOk
import McKernel.Vm.FreeSpace
import McKernel.Vm.Heap
import McKernel.Signal.Waits
import McKernel.Signal.Delivery
