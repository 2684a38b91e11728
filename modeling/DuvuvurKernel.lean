import DuvuvurKernel.Lib.Queues
import DuvuvurKernel.Error
import DuvuvurKernel.Task.Message
import DuvuvurKernel.Task.Manager
import DuvuvurKernel.Task.Scheduler
import DuvuvurKernel.Task.RunQueues
import DuvuvurKernel.Task.WaitFinish
import DuvuvurKernel.Lib.Copies
import DuvuvurKernel.Lib.Digits
import DuvuvurKernel.Lib.Moves
import DuvuvurKernel.Lib.Neighbours
import DuvuvurKernel.Lib.Lines
import DuvuvurKernel.Lib.Loops
import DuvuvurKernel.Lib.Alignment
import DuvuvurKernel.Lib.Preorder
import DuvuvurKernel.Lib.Strips
import DuvuvurKernel.Lib.Switches
import DuvuvurKernel.Lib.PriorityQueues
import DuvuvurKernel.Timer.TimerManager
import DuvuvurKernel.Timer.Firing
import DuvuvurKernel.Graphics.OverlappingMove
import DuvuvurKernel.Graphics.PixelWriter
import DuvuvurKernel.Lib.Painting
import DuvuvurKernel.Graphics.FrameBuffer
import DuvuvurKernel.Graphics.Window
import DuvuvurKernel.Graphics.FrameBytes
import DuvuvurKernel.Graphics.ClippedCopy
import DuvuvurKernel.Graphics.Layer
import DuvuvurKernel.Graphics.LayerStack
import DuvuvurKernel.Lib.Bytes
import DuvuvurKernel.Lib.LowerBound
import DuvuvurKernel.Lang.Font
import DuvuvurKernel.Lang.GlyphLookup
import DuvuvurKernel.Lang.TextDrawing
import DuvuvurKernel.Tools.Makefont
import DuvuvurKernel.Terminal.Print
import DuvuvurKernel.Terminal.Strings
import DuvuvurKernel.Lib.Chains
import DuvuvurKernel.Fat.Volume
import DuvuvurKernel.Fat.Allocation
import DuvuvurKernel.Fat.Descriptor
import DuvuvurKernel.Fat.Reading
import DuvuvurKernel.Fat.Loading
import DuvuvurKernel.Fat.RoundTrip
import DuvuvurKernel.Fat.Directory
import DuvuvurKernel.Fat.Isolation
import DuvuvurKernel.Fat.ChainedFat
import DuvuvurKernel.Fat.SharedFile
import DuvuvurKernel.Fat.Chunking
import DuvuvurKernel.Fat.WriteCursor
import DuvuvurKernel.Fat.FullVolume
import DuvuvurKernel.Fat.Names
import DuvuvurKernel.Fat.PathSearch
import DuvuvurKernel.Fat.Listing
import DuvuvurKernel.Fat.NewEntry
import DuvuvurKernel.Fat.PathCalls
import DuvuvurKernel.Fat.CreatedNames
import DuvuvurKernel.Fat.PathElements
import DuvuvurKernel.Lib.TableTrees
import DuvuvurKernel.Memory.BitmapMemoryManager
import DuvuvurKernel.Memory.AllocMap
import DuvuvurKernel.Memory.FirstFit
import DuvuvurKernel.Memory.Stat
import DuvuvurKernel.Memory.Blocks
import DuvuvurKernel.Memory.MemoryMap
import DuvuvurKernel.Memory.Usable
import DuvuvurKernel.Paging.PageMaps
import DuvuvurKernel.Paging.LinearAddress
import DuvuvurKernel.Paging.Ownership
import DuvuvurKernel.Paging.Growth
import DuvuvurKernel.Paging.Setup
import DuvuvurKernel.Paging.Filling
import DuvuvurKernel.Paging.Copying
import DuvuvurKernel.Paging.Cleaning
import DuvuvurKernel.Paging.PageFault
import DuvuvurKernel.Paging.IdentityMap
import DuvuvurKernel.Paging.PageBytes
import DuvuvurKernel.Paging.Accounts
import DuvuvurKernel.Paging.NewPages
import DuvuvurKernel.Paging.ExecuteFile
import DuvuvurKernel.Paging.Sharing
import DuvuvurKernel.Terminal.ArgVector
import DuvuvurKernel.Paging.Elf
import DuvuvurKernel.Paging.LoadApp
import DuvuvurKernel.Paging.Image
import DuvuvurKernel.Paging.ImageCache
import DuvuvurKernel.Paging.Coherence
import DuvuvurKernel.Paging.Confinement
import DuvuvurKernel.Paging.Leaves
import DuvuvurKernel.Paging.Mapping
import DuvuvurKernel.Paging.ReadOnlyCopy
import DuvuvurKernel.Paging.CopyOnWrite
import DuvuvurKernel.Usb.PortAddressing
import DuvuvurKernel.Usb.HandOver
import DuvuvurKernel.Syscall.AppMemory
import DuvuvurKernel.Syscall.AppHeap
import DuvuvurKernel.Apps.FindLines
import DuvuvurKernel.Apps.CopyUTF8String
import DuvuvurKernel.Syscall.RunningApp
import DuvuvurKernel.Syscall.MapFile
import DuvuvurKernel.Syscall.Pointers
import DuvuvurKernel.Usb.Ring
import DuvuvurKernel.Terminal.Pipe
import DuvuvurKernel.Terminal.AppInput
import DuvuvurKernel.Terminal.BlinkTimer
import DuvuvurKernel.Terminal.Encoding
import DuvuvurKernel.Terminal.KeyboardInput
import DuvuvurKernel.Task.Lifetime
import DuvuvurKernel.Terminal.Pipeline
import DuvuvurKernel.Graphics.ZOrder
import DuvuvurKernel.Graphics.Composition
import DuvuvurKernel.Graphics.PointerCoherence
import DuvuvurKernel.Graphics.TextBox
import DuvuvurKernel.Lang.TextWindowPekzep
import DuvuvurKernel.Lang.TextWindowBhat
import DuvuvurKernel.Lang.TextWindowDisplay
import DuvuvurKernel.Usb.FailedCommands
import DuvuvurKernel.Usb.EventRing
import DuvuvurKernel.Usb.ArrayMap
import DuvuvurKernel.Usb.ControlTransfers
import DuvuvurKernel.Usb.ControlMatching
import DuvuvurKernel.Graphics.WindowInvariant
import DuvuvurKernel.Graphics.PrivilegedWindows
import DuvuvurKernel.Graphics.DanglingLayers
import DuvuvurKernel.Terminal.InputKey
import DuvuvurKernel.Terminal.Drawing
import DuvuvurKernel.Terminal.CommandLine
import DuvuvurKernel.Terminal.Windowless
import DuvuvurKernel.Terminal.Xel
import DuvuvurKernel.Terminal.PipelineLine
import DuvuvurKernel.Terminal.PipelineRun
import DuvuvurKernel.Terminal.Plumbing
import DuvuvurKernel.Terminal.ArgumentWords
import DuvuvurKernel.Terminal.TypedLine
import DuvuvurKernel.Terminal.Splitting
import DuvuvurKernel.Usb.MemoryPool
import DuvuvurKernel.Usb.KeyboardDriver
import DuvuvurKernel.Usb.Enumeration
import DuvuvurKernel.Pci.Scan
import DuvuvurKernel.Usb.Descriptors
import DuvuvurKernel.Usb.DescriptorBounds
import DuvuvurKernel.Usb.DescriptorWalk
import DuvuvurKernel.Usb.Configuration
import DuvuvurKernel.Graphics.Banner
import DuvuvurKernel.Graphics.ShadowBuffer
import DuvuvurKernel.Lib.Prefixes
import DuvuvurKernel.Lang.LimitedText
import DuvuvurKernel.Usb.MapLaw
import DuvuvurKernel.Terminal.ReadDelim
import DuvuvurKernel.Lib.X86
import DuvuvurKernel.Task.Context
import DuvuvurKernel.Syscall.Entry
import DuvuvurKernel.Task.Processor
