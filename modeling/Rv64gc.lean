import Rv64gc.Hdl.Bits
import Rv64gc.Hdl.Machine
import Rv64gc.Pkg
import Rv64gc.Rename.Checkpoint
import Rv64gc.Rename.LiveCheckpoints
import Rv64gc.Csr.CsrFile
import Rv64gc.Csr.Interrupts
import Rv64gc.Backend.Commit
import Rv64gc.Decode.DecodeSlice
import Rv64gc.Csr.Privilege
import Rv64gc.Backend.Rob
import Rv64gc.Backend.RobWindow
import Rv64gc.Decode.Fusion
import Rv64gc.Decode.FusionExceptions
import Rv64gc.Execute.Alu
import Rv64gc.Execute.Bru
import Rv64gc.Decode.FusionRefines
import Rv64gc.Hdl.Table
import Rv64gc.Hdl.Laps
import Rv64gc.Rename.FreeList
import Rv64gc.Rename.Rat
import Rv64gc.Rename.RenameStage
import Rv64gc.Rename.Slots
import Rv64gc.Rename.HoldQueue
import Rv64gc.Rename.Sequential
import Rv64gc.Hdl.Renaming
import Rv64gc.Rename.InFlight
import Rv64gc.Rename.Leaks
import Rv64gc.Hdl.Reclaim
import Rv64gc.Backend.CommitGroup
import Rv64gc.Csr.FpState
import Rv64gc.Csr.Traps
import Rv64gc.Csr.RoundingMode
import Rv64gc.Frontend.Icache
import Rv64gc.Frontend.IcacheLines
import Rv64gc.Frontend.IcacheRecency
import Rv64gc.Frontend.Nlpb
import Rv64gc.Frontend.FenceI
import Rv64gc.Frontend.DuplicateGuard
import Rv64gc.Frontend.PacketBuffer
import Rv64gc.Frontend.FetchQueues
import Rv64gc.Frontend.Ftq
import Rv64gc.Frontend.FtqOrder
import Rv64gc.Hdl.Path
import Rv64gc.Backend.CommitCycle
import Rv64gc.Decode.Transfers
import Rv64gc.Frontend.PredChecker
import Rv64gc.Frontend.PredictedPath
import Rv64gc.Frontend.InstrBoundary
import Rv64gc.Frontend.SequentialParse
import Rv64gc.Frontend.RetiredPath
import Rv64gc.Frontend.EvenTargets
import Rv64gc.Mmu.Ptw
import Rv64gc.Csr.Context
import Rv64gc.Mmu.InForce
import Rv64gc.Csr.CsrViews
import Rv64gc.Csr.CsrAccess
import Rv64gc.Csr.SupervisorView
import Rv64gc.Decode.RvcDecompress
import Rv64gc.Decode.InstructionSet
import Rv64gc.Decode.IntegerOps
import Rv64gc.Decode.Recognition
import Rv64gc.Decode.IntegerDecode
import Rv64gc.Decode.MemoryDecode
import Rv64gc.Decode.FpDecode
import Rv64gc.Decode.Encodings
import Rv64gc.Decode.CompressedSet
import Rv64gc.Hdl.Fifo
import Rv64gc.Backend.ProgramWindow
import Rv64gc.Lsu.AmoAccess
import Rv64gc.Lsu.AmoUnit
import Rv64gc.Lsu.AmoRuns
import Rv64gc.Lsu.AmoUpdates
import Rv64gc.Lsu.AtomicOrder
import Rv64gc.Lsu.LoadsAfterAtomics
import Rv64gc.Lsu.StoreQueue
import Rv64gc.Lsu.StoreBuffer
import Rv64gc.Lsu.StoreDelivery
import Rv64gc.Lsu.StoresFilled
import Rv64gc.Lsu.StoresInFlight
import Rv64gc.Lsu.LoadQueue
import Rv64gc.Lsu.LoadsInFlight
import Rv64gc.Backend.DispatchQueue
import Rv64gc.Backend.IssueQueue
import Rv64gc.Backend.QueueFlush
import Rv64gc.Lsu.MmioPort
import Rv64gc.Lsu.MmioReads
import Rv64gc.Hdl.Progress
import Rv64gc.Mmu.AccessedDirty
import Rv64gc.Mmu.WalkerRuns
import Rv64gc.Lsu.SquashedLoads
import Rv64gc.Cache.L2Flat
import Rv64gc.Backend.IssueOrder
import Rv64gc.Backend.Steering
import Rv64gc.Cache.DcacheLines
import Rv64gc.Cache.DcacheWays
import Rv64gc.Execute.Division
import Rv64gc.Execute.BranchOutcome
import Rv64gc.Decode.Computation
import Rv64gc.Lsu.OrderingCheck
import Rv64gc.Lsu.ForwardingLaw
import Rv64gc.Lsu.SplitAccess
import Rv64gc.Execute.MulQueue
import Rv64gc.Backend.UpdateSpill
import Rv64gc.Frontend.Ras
import Rv64gc.Hdl.BinaryFloat
import Rv64gc.Execute.FpuMisc
import Rv64gc.Mmu.DirtyEntries
import Rv64gc.Backend.MemFence
import Rv64gc.Execute.Iq2Port
import Rv64gc.Execute.Iq2Squash
import Rv64gc.Execute.Iq2Delivers
import Rv64gc.Frontend.UopCache
import Rv64gc.Frontend.UopTraces
import Rv64gc.Frontend.UopRecency
import Rv64gc.Hdl.Recent
import Rv64gc.Hdl.Least
import Rv64gc.Platform.Clint
import Rv64gc.Platform.MmioPlatform
import Rv64gc.Platform.Console
import Rv64gc.Frontend.Btb
import Rv64gc.Frontend.BtbRecall
import Rv64gc.Backend.Operands
import Rv64gc.Backend.OperandDelivery
import Rv64gc.Execute.Fpnew
import Rv64gc.Execute.FpnewRight
import Rv64gc.Hdl.Streak
import Rv64gc.Hdl.TreePlru
import Rv64gc.Frontend.LoopPredictor
import Rv64gc.Csr.TrapReturn
import Rv64gc.Csr.Counters
import Rv64gc.Hdl.Delay
import Rv64gc.Cache.SimMemory
import Rv64gc.Cache.L2Memory
import Rv64gc.Cache.DcacheStores
import Rv64gc.Cache.DcacheDeferral
