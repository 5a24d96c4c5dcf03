import Aeon.Lib.Run
import Aeon.Lib.Pool
import Aeon.Lib.Arrays
import Aeon.Lib.Bitmap
import Aeon.Lib.I386
import Aeon.Lib.I386Program
import Aeon.Lib.Descriptor
import Aeon.Lib.Interrupt
import Aeon.Lib.Ports
import Aeon.Lib.I8259
import Aeon.Lib.Terminal
import Aeon.Lib.Numeral
import Aeon.Klibc.Types
import Aeon.Klibc.Memory
import Aeon.Klibc.Stdlib
import Aeon.Klibc.Itoa
import Aeon.Memory.Paging
import Aeon.Memory.Entry
import Aeon.Memory.PagingSpec
import Aeon.Memory.FirstFit
import Aeon.Memory.FirstFree
import Aeon.Memory.Mapping
import Aeon.Memory.Locked
import Aeon.Memory.Walk
import Aeon.Memory.Allocator
import Aeon.Memory.AllocatorSpec
import Aeon.Memory.Session
import Aeon.Memory.Ownership
import Aeon.Memory.Marking
import Aeon.Memory.Alias
import Aeon.Memory.Bounds
import Aeon.Memory.Kmalloc
import Aeon.Memory.Ram
import Aeon.Memory.Heap
import Aeon.Memory.Tlb
import Aeon.Memory.Search
import Aeon.Platform.Isr
import Aeon.Platform.Gdt
import Aeon.Platform.Boot
import Aeon.Platform.Tables
import Aeon.Platform.HigherHalf
import Aeon.Platform.Kernel
import Aeon.Platform.Irq
import Aeon.Platform.Idt
import Aeon.Display.Format
import Aeon.Display.Reads
import Aeon.Display.Pieces
import Aeon.Display.Interrupted
import Aeon.Display.Render
import Aeon.Display.Hexdump
import Aeon.Display.Textmode
import Aeon.Display.Cursor
import Aeon.Display.Screen
import Aeon.Display.Calls
import Aeon.Display.Kprintf
import Aeon.Display.Crtc
import Aeon.Block.Ata
import Aeon.Block.Disk
import Aeon.Block.Identify
import Aeon.Block.Sectors
import Aeon.Block.Drives
import Aeon.Block.Probe
import Aeon.Main
