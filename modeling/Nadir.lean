import Nadir.Lib.Loop
import Nadir.Lib.Ownership
import Nadir.Lib.Transition
import Nadir.Lib.Mem
import Nadir.Lib.Ring
import Nadir.Lib.Tiling
import Nadir.Lib.FirstFit
import Nadir.Lib.Bits
import Nadir.Lib.Page
import Nadir.Lib.Digits
import Nadir.Lib.Amd64
import Nadir.Lib.Paging
import Nadir.Lib.Progress
import Nadir.Lib.Transmitter
import Nadir.Lib.Fields
import Nadir.Lib.Modes
import Nadir.Pmm.Exclusive
import Nadir.Pmm.Reserved
import Nadir.Pmm.Usable
import Nadir.Kmalloc.Init
import Nadir.Kmalloc.Partition
import Nadir.Kmalloc.FirstFit
import Nadir.Kmalloc.Pool
import Nadir.Kmalloc.Sizes
import Nadir.Allocators
import Nadir.Isolation
import Nadir.Keyboard.Fifo
import Nadir.Boot.LoadKernel
import Nadir.Boot.Requests
import Nadir.Boot.MapCopy
import Nadir.Boot.StagingArea
import Nadir.Boot.PageTables
import Nadir.Boot.FreeMemory
import Nadir.Boot.LongMode
import Nadir.Boot.Handover
import Nadir.Pic.Masks
import Nadir.Console.Screen
import Nadir.Console.Invariant
import Nadir.Console.Backspace
import Nadir.Console.Colour
import Nadir.Console.Terminal
import Nadir.Interrupt.Resume
import Nadir.Interrupt.Dispatch
import Nadir.Interrupt.Exceptions
import Nadir.Keyboard.Typing
import Nadir.Keyboard.Held
import Nadir.Keyboard.Modifiers
import Nadir.Klog.Decimal
import Nadir.Klog.Timestamp
import Nadir.Klog.Numbers
import Nadir.Klog.Lines
import Nadir.Serial.Puts
import Nadir.Pit.Sleep
import Nadir.Interrupt.Report
import Nadir.Kmalloc.Fragments
import Nadir.Kmain.Wiring
import Nadir.Kmain.Echo
import Nadir.Kmain.Screen
import Nadir.Kmain.Mirror
import Nadir.Kmain.Uptime
import Nadir.Kmain.Drain
import Nadir.Kmain.SelfTest
import Nadir.Kmain.BootStats
