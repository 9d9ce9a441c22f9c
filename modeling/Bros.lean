import Bros.Lib.Memory
import Bros.Lib.Nibbles
import Bros.Lib.Runs
import Bros.Lib.Loops
import Bros.Lib.TextPage
import Bros.Lib.Ownership
import Bros.Lib.Search
import Bros.Lib.Pages
import Bros.Lib.Ring
import Bros.Lib.Paging
import Bros.Lib.Stack
import Bros.Lib.Dma8237
import Bros.Lib.Fdc82077
import Bros.Lib.I8042
import Bros.Lib.Polling
import Bros.Lib.Programs
import Bros.Lib.Coupling
import Bros.Lib.Numerals
import Bros.Lib.CStrings
import Bros.Lib.Timer8253
import Bros.Lib.DiskGeometry
import Bros.Lib.LastWriter
import Bros.Lib.X86Descriptors
import Bros.Lib.Pic8259
import Bros.Bitset
import Bros.BootInfo
import Bros.Pmm
import Bros.PmmInit
import Bros.PmmRuns
import Bros.PmmAccounting
import Bros.PmmAvailable
import Bros.BitsetFind
import Bros.BitsetReads
import Bros.PmmExact
import Bros.PmmAddress
import Bros.PmmFree
import Bros.IsrIrq
import Bros.IsrStubs
import Bros.Descriptors
import Bros.Pic
import Bros.Interrupts
import Bros.InterruptService
import Bros.Vmm
import Bros.PagingControl
import Bros.StartInit
import Bros.Sanitize
import Bros.SysInfo
import Bros.Disk
import Bros.LoadFile
import Bros.KernelLoad
import Bros.RootDir
import Bros.RingBuf
import Bros.Boot
import Bros.Loader
import Bros.BootDrive
import Bros.Ps2
import Bros.Ps2Init
import Bros.Keyboard
import Bros.KeyModifiers
import Bros.Vga
import Bros.Console
import Bros.ConsoleColor
import Bros.Mouse
import Bros.MousePosition
import Bros.Dma
import Bros.Fdc
import Bros.FdcRuns
import Bros.FdcCommands
import Bros.FdcDma
import Bros.FdcMotor
import Bros.FdcAddress
import Bros.FdcCompletion
import Bros.FdcSpecify
import Bros.FdcController
import Bros.Geometry
import Bros.FdcDisk
import Bros.FdcInit
import Bros.Stdlib
import Bros.Strings
import Bros.Utoa
import Bros.Itoa
import Bros.Printf
import Bros.PrintfScan
import Bros.PrintfRoom
import Bros.Cursor
import Bros.Atoi
import Bros.Pit
import Bros.Sleep
import Bros.ItoaCallers
