import ZohoOs.Lib.Indices
import ZohoOs.Lib.TransitionSystem
import ZohoOs.Lib.Forest
import ZohoOs.Lib.LinkedQueue
import ZohoOs.Lib.Placement
import ZohoOs.Lib.BlockTiling
import ZohoOs.Lib.BlockAccounts
import ZohoOs.Lib.WordStack
import ZohoOs.Lib.Layout
import ZohoOs.Lib.Interruptible
import ZohoOs.Lib.LastWrite
import ZohoOs.Lib.Program
import ZohoOs.Lib.RefCount
import ZohoOs.Lib.OnesComplement
import ZohoOs.Lib.SlotTable
import ZohoOs.Lib.Stride
import ZohoOs.Lib.Ring
import ZohoOs.Lib.Raster
import ZohoOs.Lib.CopyRuns
import ZohoOs.Lib.TextRaster
import ZohoOs.Lib.ScrollText
import ZohoOs.Lib.RecordWalk
import ZohoOs.Memory.Pmm
import ZohoOs.Memory.BootFrames
import ZohoOs.Memory.CloneFailure
import ZohoOs.Memory.Kmalloc
import ZohoOs.Memory.HeapLayout
import ZohoOs.Memory.HeapStats
import ZohoOs.Memory.NestedBlocks
import ZohoOs.Memory.PmmInvariant
import ZohoOs.Memory.HeapReserve
import ZohoOs.Memory.Vmm
import ZohoOs.Memory.PageForest
import ZohoOs.Memory.MapWalk
import ZohoOs.Memory.Translation
import ZohoOs.Memory.MapFrames
import ZohoOs.Memory.CloneTree
import ZohoOs.Memory.DestroyTree
import ZohoOs.Memory.Spaces
import ZohoOs.Memory.BootTables
import ZohoOs.Memory.TableAccess
import ZohoOs.Memory.Isolation
import ZohoOs.Memory.FrameAccounts
import ZohoOs.Memory.PageFault
import ZohoOs.Memory.CowInvariant
import ZohoOs.Memory.CowSpaces
import ZohoOs.Memory.CowOps
import ZohoOs.Memory.CowAccounting
import ZohoOs.Memory.CowRefinement
import ZohoOs.Memory.UnmapEffect
import ZohoOs.Memory.PageMap
import ZohoOs.Memory.PageRange
import ZohoOs.Memory.Unmapped
import ZohoOs.Memory.UnmapRange
import ZohoOs.Memory.MapEffect
import ZohoOs.Memory.MapRange
import ZohoOs.Memory.MapCalls
import ZohoOs.Memory.MapSteps
import ZohoOs.Memory.ConcurrentMap
import ZohoOs.Memory.ElfLoad
import ZohoOs.Memory.ElfImage
import ZohoOs.Memory.LoadFrames
import ZohoOs.Task.Scheduler
import ZohoOs.Task.Runqueues
import ZohoOs.Task.Interleaving
import ZohoOs.Task.SchedView
import ZohoOs.Task.SchedSimulation
import ZohoOs.Task.Conservation
import ZohoOs.Task.Exclusive
import ZohoOs.Task.IdleSteal
import ZohoOs.Task.RoundRobin
import ZohoOs.Task.CpuUsage
import ZohoOs.Task.Bringup
import ZohoOs.Task.Reclaim
import ZohoOs.Task.ForkFrame
import ZohoOs.Task.KernelCode
import ZohoOs.Task.SelfDeadlock
import ZohoOs.Net.Packet
import ZohoOs.Net.Receive
import ZohoOs.Net.ReceiveBounds
import ZohoOs.Net.Send
import ZohoOs.Net.RoundTrip
import ZohoOs.Net.Checksum
import ZohoOs.Net.Echo
import ZohoOs.Net.ArpCache
import ZohoOs.Net.TransmitLengths
import ZohoOs.Net.Tcp
import ZohoOs.Net.TcpCalls
import ZohoOs.Net.TcpBindings
import ZohoOs.Net.Poll
import ZohoOs.Net.ExactlyOnce
import ZohoOs.Window.Rect
import ZohoOs.Window.DirtyRects
import ZohoOs.Window.Windows
import ZohoOs.Window.BufferSize
import ZohoOs.Window.UserMapping
import ZohoOs.Window.WindowCalls
import ZohoOs.Window.Lifetime
import ZohoOs.Window.EventQueue
import ZohoOs.Window.ZOrder
import ZohoOs.Graphics.Framebuffer
import ZohoOs.Window.Draw
import ZohoOs.Window.ClickTarget
import ZohoOs.Graphics.Blit
import ZohoOs.Graphics.Font
import ZohoOs.Shell.Terminal
import ZohoOs.Shell.LineEdit
import ZohoOs.Fs.Drive
import ZohoOs.Fs.Vfs
import ZohoOs.Fs.Reads
import ZohoOs.Fs.Archive
import ZohoOs.Fs.TarWalk
import ZohoOs.Fs.Mount
import ZohoOs.Fs.CacheErrors
import ZohoOs.Fs.Readers
import ZohoOs.Fs.Writers
import ZohoOs.Fs.ChunkedReads
import ZohoOs.Fs.WriteClamp
import ZohoOs.Fs.Ext2Read
import ZohoOs.Fs.Ext2Inode
import ZohoOs.Fs.Ext2Dir
import ZohoOs.Fs.Ext2DirReads
import ZohoOs.Net.Dhcp
import ZohoOs.Net.Lease
import ZohoOs.Net.OptionReads
import ZohoOs.Syscall.OutPointers
import ZohoOs.Syscall.UserStores
import ZohoOs.Task.Launch
import ZohoOs.Task.LaunchOutcome
import ZohoOs.Input.Mouse
import ZohoOs.Boot.Acpi
import ZohoOs.Apps.Zpm
import ZohoOs.Log.Printf
import ZohoOs.Shell.Addresses
import ZohoOs.Chatbot.RepoIndex
import ZohoOs.Shell.Memmove
import ZohoOs.Fs.FileStore
import ZohoOs.Fs.StoreRefinement
import ZohoOs.Shell.FileCommands
import ZohoOs.Lib.CriticalSections
import ZohoOs.Sync.SpinLock
import ZohoOs.Fs.VfsSections
import ZohoOs.Fs.AtaPio
import ZohoOs.Net.Network
import ZohoOs.Net.PacketBlocks
import ZohoOs.Net.TransmitRing
import ZohoOs.Task.ContextSwitch
import ZohoOs.Lib.WrappedText
import ZohoOs.Log.Console
import ZohoOs.Log.Klog
import ZohoOs.Log.SerialLine
import ZohoOs.Boot.Pci
import ZohoOs.Boot.Trampoline
import ZohoOs.Lib.LittleEndian
import ZohoOs.Boot.DescriptorTables
import ZohoOs.Boot.Pic
