import SafelinuxDbg.Lib.Memory
import SafelinuxDbg.Lib.CString
import SafelinuxDbg.Lib.Records
import SafelinuxDbg.Lib.Machine
import SafelinuxDbg.Lib.Ledger
import SafelinuxDbg.Lib.Blocks
import SafelinuxDbg.Lib.Interleave
import SafelinuxDbg.Lib.Occurrences
import SafelinuxDbg.Lib.Print
import SafelinuxDbg.Lib.Numerals
import SafelinuxDbg.Lib.LapBuffer
import SafelinuxDbg.Lib.SeqBuf
import SafelinuxDbg.Lib.Lines
import SafelinuxDbg.Lib.Loop
import SafelinuxDbg.Minidump.Types
import SafelinuxDbg.Minidump.ElfHeader
import SafelinuxDbg.Minidump.ElfImage
import SafelinuxDbg.Minidump.ElfEdit
import SafelinuxDbg.Minidump.Driver
import SafelinuxDbg.Minidump.Probe
import SafelinuxDbg.Minidump.Calls
import SafelinuxDbg.Minidump.Tables
import SafelinuxDbg.Minidump.RegionNumbers
import SafelinuxDbg.Minidump.Capacity
import SafelinuxDbg.Minidump.SequenceNumbers
import SafelinuxDbg.Minidump.Registry
import SafelinuxDbg.Minidump.Refinement
import SafelinuxDbg.Minidump.Consistency
import SafelinuxDbg.Minidump.Removal
import SafelinuxDbg.Minidump.UpdateRefusal
import SafelinuxDbg.Minidump.DeferredAdd
import SafelinuxDbg.Minidump.Publish
import SafelinuxDbg.Minidump.Worker
import SafelinuxDbg.Minidump.System
import SafelinuxDbg.Minidump.RmSystem
import SafelinuxDbg.Minidump.SlotOwnership
import SafelinuxDbg.Minidump.SlotLeaks
import SafelinuxDbg.Minidump.Initialisation
import SafelinuxDbg.Minidump.Layout
import SafelinuxDbg.Minidump.TableOrder
import SafelinuxDbg.Minidump.GetRegion
import SafelinuxDbg.Minidump.OrderlyCalls
import SafelinuxDbg.Minidump.UnusedHeaders
import SafelinuxDbg.MemoryDump.RegisterTable
import SafelinuxDbg.MemoryDump.Entries
import SafelinuxDbg.MemoryDump.TableImage
import SafelinuxDbg.MemoryDump.ConfigSession
import SafelinuxDbg.MemoryDump.Commute
import SafelinuxDbg.MemoryDump.Setup
import SafelinuxDbg.MemoryDump.Concurrent
import SafelinuxDbg.MemoryDump.Rendering
import SafelinuxDbg.MemoryDump.ShowWalk
import SafelinuxDbg.MemoryDump.ShowBuffers
import SafelinuxDbg.MemoryDump.SprTable
import SafelinuxDbg.MemoryDump.Refusal
import SafelinuxDbg.MemoryDump.DumpTable
import SafelinuxDbg.MemoryDump.CarveOut
import SafelinuxDbg.MemoryDump.AllocFailure
import SafelinuxDbg.MemoryDump.DataRegister
import SafelinuxDbg.XblLog.BootLog
import SafelinuxDbg.MinidumpMemory.DumpSize
import SafelinuxDbg.MinidumpMemory.HandleArea
import SafelinuxDbg.MinidumpMemory.Resize
import SafelinuxDbg.MinidumpMemory.PageOwner
import SafelinuxDbg.MinidumpMemory.BackReferences
import SafelinuxDbg.MinidumpMemory.PageOwnerBounds
import SafelinuxDbg.MinidumpMemory.PageFilter
import SafelinuxDbg.MinidumpMemory.CallSites
import SafelinuxDbg.MinidumpMemory.SlabOwner
import SafelinuxDbg.MinidumpMemory.SlabOwnerText
import SafelinuxDbg.MinidumpMemory.SlabFilter
import SafelinuxDbg.MinidumpMemory.DmaBuf
import SafelinuxDbg.MinidumpMemory.DmaBufInfo
import SafelinuxDbg.MinidumpMemory.DmaBufProcs
import SafelinuxDbg.MinidumpMemory.MemStats
import SafelinuxDbg.MinidumpLog.StackNames
import SafelinuxDbg.MinidumpLog.Submissions
import SafelinuxDbg.MinidumpLog.ModuleDump
import SafelinuxDbg.MinidumpLog.ModuleList
import SafelinuxDbg.MinidumpLog.KmsgDump
import SafelinuxDbg.MinidumpLog.RunQueues
import SafelinuxDbg.MinidumpLog.RunQueueText
import SafelinuxDbg.MinidumpLog.StackTracking
import SafelinuxDbg.MinidumpLog.StackDump
import SafelinuxDbg.MinidumpLog.ContextDump
import SafelinuxDbg.MinidumpLog.PanicDump
import SafelinuxDbg.MinidumpLog.TraceBuffer
import SafelinuxDbg.MinidumpLog.LogInit
import SafelinuxDbg.MinidumpLog.LogSystem
