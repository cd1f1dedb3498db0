import TbjitAlloc.Core.Transition
import TbjitAlloc.Core.ByteMemory
import TbjitAlloc.Core.LinkedChain
import TbjitAlloc.Core.Carving
import TbjitAlloc.Core.Blocks
import TbjitAlloc.Core.FirstMatch
import TbjitAlloc.Segment.Header
import TbjitAlloc.Segment.Heap
import TbjitAlloc.Codegen.Compile
import TbjitAlloc.Codegen.SlowInit
import TbjitAlloc.Analysis.Histogram
import TbjitAlloc.Analysis.KsTest
import TbjitAlloc.Analysis.Summary
import TbjitAlloc.Analysis.Picker
import TbjitAlloc.Analysis.Stream
import TbjitAlloc.Analysis.BlockSpec
import TbjitAlloc.Analysis.Specialization
import TbjitAlloc.Analysis.PostWindow
import TbjitAlloc.Analysis.Blacklist
import TbjitAlloc.Codegen.Routine
import TbjitAlloc.Segment.Frames
import TbjitAlloc.Codegen.ListFamily
import TbjitAlloc.Codegen.ListInvariant
import TbjitAlloc.Codegen.CursorInvariant
import TbjitAlloc.Codegen.PcInvariant
import TbjitAlloc.Codegen.FreeFrame
import TbjitAlloc.Codegen.ReaperSafety
import TbjitAlloc.Codegen.Alignment
import TbjitAlloc.Trampoline.EntryPoints
import TbjitAlloc.Trampoline.Origin
import TbjitAlloc.Analysis.LifetimeTag
import TbjitAlloc.Analysis.Attribution
import TbjitAlloc.Codegen.PairedStack
import TbjitAlloc.Core.Ranking
import TbjitAlloc.Analysis.DenseRefinement
import TbjitAlloc.Analysis.TwoRuns
import TbjitAlloc.Analysis.OracleBound
import TbjitAlloc.Analysis.Reordering
import TbjitAlloc.FreeList.Retirement
import TbjitAlloc.Core.Probing
import TbjitAlloc.Shadow.Validator
import TbjitAlloc.Dispatch.Table
import TbjitAlloc.Ring.Channel
import TbjitAlloc.Ring.Wakeup
import TbjitAlloc.Dispatch.InlineCache
import TbjitAlloc.Arena.Rings
import TbjitAlloc.Core.Bitmap
import TbjitAlloc.Segment.Registry
import TbjitAlloc.Deopt.Machine
import TbjitAlloc.Deopt.Loss
import TbjitAlloc.Trampoline.Realloc
import TbjitAlloc.Analysis.Coverage
import TbjitAlloc.Deopt.Agreement
import TbjitAlloc.Deopt.Once
import TbjitAlloc.Deopt.System
import TbjitAlloc.Deopt.Reclamation
import TbjitAlloc.Core.MajorityVote
import TbjitAlloc.Analysis.SiteLog
import TbjitAlloc.Analysis.ThreadConcentration
import TbjitAlloc.Analysis.PairedLifo
import TbjitAlloc.Analysis.MergeWalk
import TbjitAlloc.Analysis.KsDecision
import TbjitAlloc.Segment.RemoteQueue
import TbjitAlloc.Trace.Record
import TbjitAlloc.Trampoline.Bootstrap
import TbjitAlloc.Replay.Resolve
import TbjitAlloc.Replay.Pass
import TbjitAlloc.Replay.Balance
import TbjitAlloc.Replay.Client
import TbjitAlloc.X86.Machine
import TbjitAlloc.X86.Assembly
import TbjitAlloc.Codegen.Emitter
import TbjitAlloc.Codegen.BumpCode
import TbjitAlloc.Codegen.FreeListCode
import TbjitAlloc.Codegen.RoutineCode
import TbjitAlloc.Allocator.Safety
import TbjitAlloc.Shadow.Build
import TbjitAlloc.Core.Records
import TbjitAlloc.Trace.File
import TbjitAlloc.Trace.Replay
import TbjitAlloc.Analysis.DumpReport
