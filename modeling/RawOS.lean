import RawOS.AvlTree
import RawOS.Util
import RawOS.Alloc.AvlRep
import RawOS.Alloc.AvlSim
import RawOS.Alloc.AvlOps
import RawOS.Alloc.AvlRun
import RawOS.Alloc.HeapInv
import RawOS.Alloc.HeapAlloc
import RawOS.Alloc.HeapFree
import RawOS.Alloc.HeapBump
import RawOS.Alloc.HeapRun
import RawOS.HashMap
import RawOS.Probing
import RawOS.HashMapSpec
import RawOS.Rawx
import RawOS.RawxSpec
import RawOS.Alloc.HeapPool
import RawOS.Keyboard
import RawOS.KeyboardRun
import RawOS.Bitmap
import RawOS.Descriptors
import RawOS.Paging
import RawOS.PagingInv
import RawOS.KernelPages
import RawOS.KernelInv
import RawOS.Cleaning
import RawOS.Cloning
import RawOS.HeapGrowths
import RawOS.PagingInit
import RawOS.KernelRun
import RawOS.BitmapBounds
import RawOS.FreeFrames
import RawOS.CallsReturn
import RawOS.Boot
import RawOS.DirectoryFrames
import RawOS.ClonedSpace
import RawOS.Alloc.HoleSearch
import RawOS.KallocRun
import RawOS.Alloc.HeapConfluence
import RawOS.Ring
import RawOS.ProcessRing
import RawOS.Terminal
import RawOS.Screen
import RawOS.Fs.Vfs
import RawOS.Fs.Directories
import RawOS.Fs.FileReads
import RawOS.Fs.Ramdisk
import RawOS.HeapLimit
import RawOS.ReachedPages
import RawOS.Process
import RawOS.Execve
import RawOS.KernelStacks
import RawOS.ProcessCalls
import RawOS.ProcessRun
import RawOS.HeapBytes
import RawOS.ProcessStart
import RawOS.ProcessLife
import RawOS.Fs.Path
import RawOS.Modifiers
import RawOS.StackRange
import RawOS.DeclaredStack
import RawOS.Alloc.HoleFit
import RawOS.Alloc.RemoveAbsent
import RawOS.Alloc.HeapExpand
import RawOS.Syscall
import RawOS.RawxImport
import RawOS.RawxReads
import RawOS.BitmapSet
import RawOS.HashMapLoad
import RawOS.HashMapRun
import RawOS.Numeral
import RawOS.Printf
import RawOS.PrintfSpec
import RawOS.WindowPages
import RawOS.KernelLinks
import RawOS.LoadPages
import RawOS.ProcessLinks
import RawOS.RoundRobin
import RawOS.Scheduling
import RawOS.PrivateMemory
import RawOS.ProcessSpaces
import RawOS.Isolation
import RawOS.LoadedBytes
import RawOS.X86
import RawOS.Interrupts
import RawOS.Simulation
import RawOS.SystemCalls
import RawOS.X86Fetch
import RawOS.SyscallStubs
import RawOS.ProcessLimit
import RawOS.X86Paging
import RawOS.FrameCopy
