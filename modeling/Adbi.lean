import Adbi.Lib.Traced
import Adbi.Payload
import Adbi.PayloadProofs
import Adbi.Injection
import Adbi.InjectionProofs
import Adbi.Lib.Stateful
import Adbi.Tracee
import Adbi.StopSignalProofs
import Adbi.StopProofs
import Adbi.Registry
import Adbi.CloneProofs
import Adbi.Spawn
import Adbi.SpawnProofs
import Adbi.Stabilize
import Adbi.StabilizeProofs
import Adbi.Trampoline
import Adbi.TrampolineProofs
import Adbi.A64
import Adbi.A64Template
import Adbi.A64TemplateProofs
import Adbi.GenericProofs
import Adbi.ArmTargetProofs
import Adbi.ArmPatchProofs
import Adbi.CompletionProofs
import Adbi.RescanProofs
import Adbi.Fork
import Adbi.ForkProofs
import Adbi.Protocol
import Adbi.Attach
import Adbi.AttachProofs
import Adbi.Branch
import Adbi.BranchProofs
import Adbi.MemDump
import Adbi.MemDumpProofs
import Adbi.Mutex
import Adbi.MutexProofs
import Adbi.PayloadPutProofs
import Adbi.PayloadBuild
import Adbi.PayloadBuildProofs
import Adbi.Client
import Adbi.ClientProofs
import Adbi.Injfile
import Adbi.InjfileProofs
import Adbi.InjfileLookup
import Adbi.SymbolTableProofs
import Adbi.LineTableProofs
import Adbi.A64Context
import Adbi.ArmContext
import Adbi.ContextProofs
import Adbi.Dwarf
import Adbi.Dwexpr
import Adbi.DwexprProofs
import Adbi.MainLoop
import Adbi.MainLoopProofs
import Adbi.A32
import Adbi.ArmOolProofs
import Adbi.T32
import Adbi.ArmFillProofs
import Adbi.LinkingProofs
import Adbi.Loading
import Adbi.TraversalProofs
import Adbi.Instrument
import Adbi.InstrumentProofs
import Adbi.ReferenceProofs
import Adbi.ReleaseProofs
import Adbi.Gaps
import Adbi.GapsProofs
import Adbi.MemWriteProofs
import Adbi.CallStack
import Adbi.CallStackProofs
import Adbi.FileOffsets
import Adbi.FileOffsetsProofs
import Adbi.Fncall
import Adbi.FncallProofs
import Adbi.LoadCallProofs
import Adbi.TracedCallProofs
import Adbi.Iteration
import Adbi.IterationProofs
import Adbi.Lib.Placement
import Adbi.Tracepoints
import Adbi.TracepointsProofs
import Adbi.InjfileReaders
import Adbi.Lib.Sentinel
import Adbi.InjfileSafetyProofs
import Adbi.Variables
import Adbi.VariablesProofs
import Adbi.Division
import Adbi.DecimalProofs
import Adbi.DivisionProofs
import Adbi.Lib.Transducer
import Adbi.StripComments
import Adbi.StripCommentsProofs
import Adbi.LinkerAttach
import Adbi.LinkerAttachProofs
import Adbi.Lib.Numerals
import Adbi.ProcfsMaps
import Adbi.ProcfsMapsProofs
import Adbi.CacheRanges
import Adbi.CacheRangesProofs
import Adbi.DefinitionOrder
import Adbi.Lib.Acyclic
import Adbi.DefinitionOrderProofs
import Adbi.StructLayout
import Adbi.StructLayoutProofs
import Adbi.TypeCompression
import Adbi.Lib.Correspondence
import Adbi.TypeCompressionProofs
import Adbi.Leb128
import Adbi.Leb128Proofs
import Adbi.BitOps
import Adbi.BitOpsProofs
import Adbi.InsnSet
import Adbi.InsnSetProofs
import Adbi.Lib.LinkedTree
import Adbi.SegmentTree
import Adbi.SegmentTreeProofs
import Adbi.GapSearch
import Adbi.GapSearchProofs
import Adbi.GapRounds
import Adbi.T32FillProofs
import Adbi.T32OolProofs
import Adbi.A32Alu
import Adbi.DpFillProofs
import Adbi.DpOolProofs
import Adbi.Lib.Exits
import Adbi.Session
import Adbi.SessionProofs
import Adbi.Direct
import Adbi.ListingProofs
import Adbi.HandlerProofs
import Adbi.RemoteProofs
import Adbi.Lib.Overwrite
import Adbi.Patching
import Adbi.PatchingProofs
import Adbi.TreeIteration
import Adbi.TreeIterationProofs
import Adbi.Lib.CDecl
import Adbi.Declarators
import Adbi.DeclaratorProofs
