import FreeProbe.Attach.AttachedLinks
import FreeProbe.Attach.HookConsistency
import FreeProbe.Attach.NestedRuns
import FreeProbe.Attach.OverrideRace
import FreeProbe.Attach.SyscallCallbacks
import FreeProbe.Attach.SyscallTransparent
import FreeProbe.Gpu.DeviceArray
import FreeProbe.Gpu.HelperCall
import FreeProbe.Gpu.PatchCache
import FreeProbe.Gpu.RingDrain
import FreeProbe.Gum.Transparency
import FreeProbe.Gum.Invocations
import FreeProbe.Gum.SamplingRace
import FreeProbe.Gum.Replacement
import FreeProbe.Gum.TrampolineLabels
import FreeProbe.Handler.EpollWait
import FreeProbe.Handler.KernelMirror
import FreeProbe.Handler.Links
import FreeProbe.Handler.MapCreation
import FreeProbe.Handler.MapInMaps
import FreeProbe.Handler.MapSharing
import FreeProbe.Handler.PerfHeaders
import FreeProbe.Handler.PerfRecordSize
import FreeProbe.Handler.TableRange
import FreeProbe.Helper.CsumDiff
import FreeProbe.Helper.PerfOutput
import FreeProbe.Helper.ProbeFault
import FreeProbe.Helper.Ufunc
import FreeProbe.Helper.XdpWindow
import FreeProbe.Maps.BloomFilter
import FreeProbe.Maps.FixHashMap
import FreeProbe.Maps.GpuHashMap
import FreeProbe.Maps.KernelUser
import FreeProbe.Maps.LpmTrieFlags
import FreeProbe.Maps.LruRefine
import FreeProbe.Maps.RingbufFifo
import FreeProbe.Maps.PerCpuHashMap
import FreeProbe.Maps.PushPaths
import FreeProbe.Maps.ArrayMap
import FreeProbe.Maps.SharedArray
import FreeProbe.Maps.StackTrace
import FreeProbe.Ptx.GuardRun
import FreeProbe.Ptx.Memcapture
import FreeProbe.Server.FallThrough
import FreeProbe.Vm.JitAluLawful
import FreeProbe.Vm.JitAtomic
import FreeProbe.Vm.JitControlFlow
import FreeProbe.Vm.JitFrontEnd
import FreeProbe.Vm.JitCalls
import FreeProbe.Vm.LlvmVm
import FreeProbe.Vm.JitProgram
import FreeProbe.Gum.TransactionSafety
