import HeroTools.Ringbuf.Defs
import HeroTools.Ringbuf.Invariant
import HeroTools.Ringbuf.Spsc
import HeroTools.Ringbuf.Progress
import HeroTools.Driver.Defs
import HeroTools.Driver.Ioctl
import HeroTools.Driver.IoctlAtomic
import HeroTools.Driver.DmaBuffers
import HeroTools.Driver.Mmap
import HeroTools.Libhero.HostMalloc
import HeroTools.Driver.IommuMap
import HeroTools.Libhero.IommuMapVirt
import HeroTools.Driver.IommuAttach
import HeroTools.Driver.IommuRegions
import HeroTools.Libhero.Heap
import HeroTools.Libhero.HeapRuns
import HeroTools.Lib.Renaming
import HeroTools.Llvm.Syntax
import HeroTools.Llvm.HostPointerVisitor
import HeroTools.Llvm.Semantics
import HeroTools.Llvm.Simulation
import HeroTools.Llvm.Visit
import HeroTools.Llvm.Walk
import HeroTools.Llvm.Preservation
import HeroTools.Llvm.OmpHostPointerLegalizer
import HeroTools.Llvm.HostAccesses
import HeroTools.Llvm.Device
import HeroTools.Driver.RegionAdd
import HeroTools.Libhero.IommuMapVirtToPhys
import HeroTools.Libhero.Lookup
import HeroTools.Libhero.HostMallocAlone
import HeroTools.Driver.Read
import HeroTools.Apps.Hero64
import HeroTools.Lib.Mirror
import HeroTools.Libhero.MboxRead
import HeroTools.Lib.Outline
import HeroTools.Libhero.Reset
import HeroTools.Libhero.ResetLaw
import HeroTools.Driver.Lifecycle
import HeroTools.Driver.ResourceBalance
import HeroTools.Driver.OccamyLifecycle
import HeroTools.Driver.GpioIrq
import HeroTools.Libhero.Mboxes
import HeroTools.Libhero.MboxIsolation
import HeroTools.Libhero.Arena
import HeroTools.Pcie.HeroPcieDts
import HeroTools.Pcie.HeroPci
import HeroTools.Lib.Calls
import HeroTools.Libhero.DevMmap
import HeroTools.Libhero.MboxErrors
import HeroTools.Lib.Fair
import HeroTools.Libhero.Exchange
import HeroTools.Libhero.ExchangeWords
import HeroTools.Libhero.DevMmapOutcomes
import HeroTools.Driver.ProbeNode
import HeroTools.Driver.ProbeText
import HeroTools.Llvm.Pieces
import HeroTools.Llvm.SupportCalls
import HeroTools.Llvm.CallGraph
import HeroTools.Lib.Trees
import HeroTools.Llvm.ConstantCasts
import HeroTools.Llvm.IllegalCasts
import HeroTools.Llvm.SecondRun
import HeroTools.Omp.Functions
import HeroTools.Omp.OmpKernelWrapper
import HeroTools.Omp.WrapperRuns
import HeroTools.Omp.WrappedKernels
import HeroTools.Omp.OutlinedCalls
import HeroTools.Omp.OutlinedForks
import HeroTools.Omp.OutlinedNames
import HeroTools.Omp.KernelUses
import HeroTools.Omp.RunOnModule
import HeroTools.Apps.Fdotp
import HeroTools.Lib.Vectors
import HeroTools.Apps.FdotpRvv
import HeroTools.Libhero.OccamyTlb
import HeroTools.Libhero.Timestamps
import HeroTools.Apps.Matvec
import HeroTools.Apps.MatvecRuns
import HeroTools.Apps.MatvecExact
import HeroTools.Apps.MatvecTargets
import HeroTools.Apps.MatvecMain
import HeroTools.Libhero.ExchangeLive
import HeroTools.Libhero.HandOver
import HeroTools.Libhero.OccamyReset
