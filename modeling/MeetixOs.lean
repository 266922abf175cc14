import MeetixOs.Lib.PowTwo
import MeetixOs.Lib.Transition
import MeetixOs.Lib.Threads
import MeetixOs.Lib.IndexPerm
import MeetixOs.Lib.Split
import MeetixOs.Lib.Spans
import MeetixOs.Core.Usize
import MeetixOs.Core.Layout
import MeetixOs.Core.FromStr
import MeetixOs.Helps.Align
import MeetixOs.Heap.LinkedList
import MeetixOs.Heap.HoleList
import MeetixOs.Heap.SplitHole
import MeetixOs.Heap.SplitHoleChecked
import MeetixOs.Heap.LinkedListSpec
import MeetixOs.Heap.LinkedListRun
import MeetixOs.Heap.Slab
import MeetixOs.Heap.Heap
import MeetixOs.Heap.HeapRun
import MeetixOs.Kernel.PageSize
import MeetixOs.Kernel.Heap
import MeetixOs.Heap.LazyLockedHeap
import MeetixOs.Kernel.LayoutManager
import MeetixOs.Kernel.LayoutPlacement
import MeetixOs.Bits.BitFields
import MeetixOs.Bits.BitRanges
import MeetixOs.Bits.BitFlags
import MeetixOs.Kernel.MemManager
import MeetixOs.Kernel.VirtAddr
import MeetixOs.Kernel.PageDir
import MeetixOs.Kernel.PageTableEntry
import MeetixOs.Kernel.DirectMap
import MeetixOs.Kernel.Addr
import MeetixOs.Sync.SpinLocks
import MeetixOs.Api.PathComponent
import MeetixOs.Api.Path
import MeetixOs.Api.PathSpec
import MeetixOs.Api.PathNormalize
import MeetixOs.Kernel.DevManager
import MeetixOs.Kernel.NodeStructs
import MeetixOs.ApiData.Device
import MeetixOs.Kernel.Gdt
import MeetixOs.Kernel.GdtRun
import MeetixOs.Kernel.Cpu
import MeetixOs.Kernel.Acpi
import MeetixOs.Kernel.BootInfo
import MeetixOs.Symbols.CodeSymbols
