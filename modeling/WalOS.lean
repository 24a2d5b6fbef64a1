import WalOS.Lib.Traced
import WalOS.Lib.Linked
import WalOS.Lib.Follow
import WalOS.Lib.Rendezvous
import WalOS.Lib.Service
import WalOS.Kernel.State
import WalOS.Kernel.Process
import WalOS.Kernel.Message
import WalOS.Kernel.Interrupt
import WalOS.Ipc.Post
import WalOS.Ipc.Represents
import WalOS.Ipc.Deadlock
import WalOS.Ipc.Links
import WalOS.Ipc.Calls
import WalOS.Ipc.Run
import WalOS.Ipc.SysCall
import WalOS.Ipc.Elsewhere
import WalOS.Ipc.Early
import WalOS.Ipc.Commute
import WalOS.Ipc.Access
import WalOS.Ipc.Wakeup
import WalOS.Ipc.Machine
import WalOS.Ipc.Delivery
import WalOS.Ipc.Services
import WalOS.Lib.Quantum
import WalOS.Sched.Select
import WalOS.Sched.Share
import WalOS.Lib.RingBuffer
import WalOS.Console.Keys
import WalOS.Console.Screen
import WalOS.Console.Keyboard
import WalOS.Console.Input
import WalOS.Console.Decode
import WalOS.Console.Isolation
import WalOS.Console.Window
import WalOS.Console.Region
import WalOS.Console.Mirror
import WalOS.Console.Cursor
import WalOS.Console.Swallow
import WalOS.Console.Unmapped
import WalOS.Lib.Fat12
import WalOS.Boot.Floppy
import WalOS.Boot.Chain
import WalOS.Lib.Search
import WalOS.Boot.RootDir
import WalOS.Boot.Loader
import WalOS.Boot.MemInfo
import WalOS.Lib.Block
import WalOS.Hdd.Drive
import WalOS.Hdd.Driver
import WalOS.Hdd.Ports
import WalOS.Hdd.Partition
import WalOS.Hdd.Address
import WalOS.Hdd.Lookup
import WalOS.Hdd.Transfer
import WalOS.Hdd.Count
import WalOS.Hdd.Open
import WalOS.Hdd.Bench
import WalOS.Hdd.Interrupts
import WalOS.Hdd.Timeout
import WalOS.Lib.Viewport
import WalOS.Lib.Bytes
import WalOS.Boot.Paging
import WalOS.Boot.Relocate
import WalOS.Kernel.Layout
import WalOS.Kernel.Descriptor
import WalOS.Boot.ProcTable
import WalOS.Boot.Start
import WalOS.Trap.Cpu
import WalOS.Trap.Frame
import WalOS.Trap.Nesting
import WalOS.Trap.Start
import WalOS.Trap.Invariant
import WalOS.Trap.Steps
import WalOS.Trap.Transparent
import WalOS.Lib.Numeral
import WalOS.Text.Cstr
import WalOS.Text.Strcpy
import WalOS.Text.Itoa
import WalOS.Text.Canonical
import WalOS.Text.Vsprintf
import WalOS.Text.Atoi
import WalOS.Text.Render
import WalOS.Text.Cut
import WalOS.Text.Hex
import WalOS.Lib.Intel8259
import WalOS.Irq.Control
import WalOS.Irq.Nested
import WalOS.Irq.Masks
import WalOS.Irq.Steps
import WalOS.Irq.Service
import WalOS.Lib.Terminal
import WalOS.Console.Contents
import WalOS.Console.Printx
import WalOS.Console.Critical
import WalOS.Lib.Reader
import WalOS.Console.Echo
import WalOS.Console.EchoRun
import WalOS.Boot.Confined
import WalOS.Trap.Exception
import WalOS.Boot.Protected
import WalOS.Boot.Tables
import WalOS.Lib.Privilege
import WalOS.Ipc.Blocking
import WalOS.Boot.Copying
