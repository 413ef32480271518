import AlkOS.Containers.BitmapPriorityQueue
import AlkOS.Containers.CritBitMap
import AlkOS.Fs.Fat.Canonical
import AlkOS.Fs.Fat.Deletion
import AlkOS.Fs.Fat.Packed
import AlkOS.Fs.FdTable
import AlkOS.Fs.FilePositions
import AlkOS.Graphics.Clipping
import AlkOS.Libc.Truncation
import AlkOS.Mem.HeapAligned
import AlkOS.Mem.Mmu.HugePages
import AlkOS.Mem.Slab.Objects
import AlkOS.Mem.Slab.Occupancy
import AlkOS.Mem.Virt.AreaList
import AlkOS.Mem.Virt.UserRoots
import AlkOS.Modules.Ownership
import AlkOS.Modules.Vfs
import AlkOS.Sched.Identifiers
import AlkOS.Libc.MkTime
import AlkOS.Boot.Elf64
import AlkOS.Libc.FilePool
import AlkOS.Libc.Weeks
import AlkOS.Containers.AtomicCyclicBuffer
