import CoralNPU.Lib.Except
import CoralNPU.Lib.While
import CoralNPU.Lib.Scatter
import CoralNPU.Lib.Halving
import CoralNPU.Lib.Memory
import CoralNPU.Lib.Grid
import CoralNPU.Lib.Steps
import CoralNPU.Lib.Bytes
import CoralNPU.Lib.Traced
import CoralNPU.Lib.Region
import CoralNPU.Lib.Layout
import CoralNPU.Lib.Rv32
import CoralNPU.Lib.Rv32Caller
import CoralNPU.Lib.Assoc
import CoralNPU.Lib.Text
import CoralNPU.Lib.Decimal
import CoralNPU.Lib.Json
import CoralNPU.Lib.JsonText
import CoralNPU.Lib.JsonObject
import CoralNPU.Lib.Loop
import CoralNPU.Lib.Strided
import CoralNPU.Lib.WriteSet
import CoralNPU.Lib.Lanes
import CoralNPU.Lib.BitFormat
import CoralNPU.Lib.Scratch
import CoralNPU.Lib.GroupBy
import CoralNPU.Lib.Csv
import CoralNPU.Lib.Memo
import CoralNPU.Lib.RowMajor
import CoralNPU.Lib.RefCount
import CoralNPU.Lib.Record
import CoralNPU.Lib.View
import CoralNPU.Mlir.Types
import CoralNPU.Tiling.Op
import CoralNPU.Tiling.Classify
import CoralNPU.Tiling.Footprint
import CoralNPU.Tiling.FootprintMono
import CoralNPU.Tiling.TileAccess
import CoralNPU.Tiling.Packing
import CoralNPU.Tiling.PackBound
import CoralNPU.Tiling.UnpackBound
import CoralNPU.Tiling.LinalgBound
import CoralNPU.Tiling.NamedOps
import CoralNPU.Tiling.Config
import CoralNPU.Tiling.Vlen
import CoralNPU.Tiling.Passes
import CoralNPU.Tiling.ShrinkLoop
import CoralNPU.Tiling.ShrinkTermination
import CoralNPU.Tiling.CacheConfig
import CoralNPU.Tiling.Fit
import CoralNPU.Tiling.RegisterTile
import CoralNPU.Tiling.CacheTile
import CoralNPU.Tiling.Pipeline
import CoralNPU.Tiling.Fallback
import CoralNPU.Tiling.GenericTile
import CoralNPU.Tiling.RegisterBudget
import CoralNPU.Tiling.Defined
import CoralNPU.Affinity.Annotation
import CoralNPU.Affinity.Tilable
import CoralNPU.Affinity.ExecutionProfile
import CoralNPU.Affinity.ReportJson
import CoralNPU.Affinity.ProfileTotals
import CoralNPU.Affinity.ReportCsv
import CoralNPU.Matrix.Contract
import CoralNPU.Tiling.MatrixTile
import CoralNPU.Matrix.IR
import CoralNPU.Matrix.Chain
import CoralNPU.Matrix.Rewrite
import CoralNPU.Matrix.Leaves
import CoralNPU.Matrix.Configuration
import CoralNPU.Matrix.Semantics
import CoralNPU.Matrix.Scope
import CoralNPU.Matrix.CloneSim
import CoralNPU.Matrix.Site
import CoralNPU.Matrix.LoopFrame
import CoralNPU.Matrix.LoopPass
import CoralNPU.Matrix.Links
import CoralNPU.Matrix.Values
import CoralNPU.Matrix.Accumulate
import CoralNPU.Matrix.Splice
import CoralNPU.Matrix.SingleChain
import CoralNPU.Matrix.ChainSite
import CoralNPU.Matrix.ChainRewrite
import CoralNPU.Matrix.ChainMemory
import CoralNPU.Matrix.Recording
import CoralNPU.Matrix.Lowerable
import CoralNPU.Matrix.ToLLVM
import CoralNPU.Matrix.ToLLVMPass
import CoralNPU.Matrix.PlaceholderName
import CoralNPU.Matrix.TileMemory
import CoralNPU.Matrix.Transfer
import CoralNPU.Matrix.Operand
import CoralNPU.Matrix.Meaning
import CoralNPU.Matrix.Lowered
import CoralNPU.Matrix.IntegerLanes
import CoralNPU.Matrix.FloatLanes
import CoralNPU.Matrix.LoweredMeaning
import CoralNPU.Sim.Request
import CoralNPU.Sim.Host
import CoralNPU.Sim.Allocator
import CoralNPU.Sim.Encode
import CoralNPU.Sim.Firmware
import CoralNPU.Sim.KernelArguments
import CoralNPU.Sim.Dispatch
import CoralNPU.Sim.CommandBuffer
import CoralNPU.Sim.Elf
import CoralNPU.Sim.ElfSymbols
import CoralNPU.Sim.ElfSegments
import CoralNPU.Sim.Inline
import CoralNPU.Sim.Placement
import CoralNPU.Sim.Intact
import CoralNPU.Sim.Aliasing
import CoralNPU.Sim.DispatchPaths
import CoralNPU.Sim.Recording
import CoralNPU.Sim.Workgroups
import CoralNPU.Target.Serialize
import CoralNPU.Crt.Section
import CoralNPU.Crt.LinkerScript
import CoralNPU.Crt.Startup
import CoralNPU.Crt.Start
import CoralNPU.Crt.StartRun
import CoralNPU.Crt.FunctionTables
import CoralNPU.Crt.Boot
import CoralNPU.Crt.CxxGuards
import CoralNPU.Driver.Semaphore
import CoralNPU.Driver.SemaphoreRuns
import CoralNPU.Driver.SemaphoreWait
import CoralNPU.Driver.Queue
import CoralNPU.Driver.Submissions
import CoralNPU.Driver.Schedule
import CoralNPU.Driver.InferFormat
import CoralNPU.Driver.Lifetimes
import CoralNPU.Driver.ExecutableCache
import CoralNPU.Tools.CompileMain
import CoralNPU.CheckGen.ParseUtils
import CoralNPU.CheckGen.CheckTestGenerator
import CoralNPU.CheckGen.Generators
import CoralNPU.CheckGen.GeneratorFiles
import CoralNPU.CheckGen.Main
import CoralNPU.CheckGen.BuildRules
import CoralNPU.Zvt.Instructions
