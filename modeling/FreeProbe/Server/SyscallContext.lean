import FreeProbe.Handler.KernelProg
import FreeProbe.Lib.Calls

/-!
# `Server.SyscallContext` — the intercepted calls of the syscall server

`syscall_context.cpp`: one handler for each libc function that the preloaded library takes the place of. A handler
answers from bpftime's own objects or calls the function it stands for, so it is a `Prog` whose calls are the original
functions. What bpftime answers is the `Runtime`. A pointer argument stands with what it points at, if that can be read; a
handler that reads what cannot be read ends the process, by a fault or by an exception out of a `noexcept` function. What
lies behind the pointers in a `bpf_attr` is read by bpftime's functions or the kernel, not by the handler.

The raw results are `Int`: an `int` and a `long` have one value, and a pointer is its address.

`start_up` runs once, with the mock disabled, before the first handled call; it is no call of the handlers.
-/

namespace Server

open Handler (CStr MapAttr MapInfo cstr)
open Lib (Prog)

/-! ## Arguments -/

/-- A pointer, with what it points at; `none` where that cannot be read, as behind null. -/
structure Ptr (α : Type) where
  addr   : Nat
  target : Option α
deriving DecidableEq

/-- `bpf_cmd`, as far as the commands have a case of their own. -/
inductive BpfCmd where
  | mapCreate
  | mapLookupElem
  | mapUpdateElem
  | mapDeleteElem
  | mapLookupAndDeleteElem
  | mapGetNextKey
  | progLoad
  | linkCreate
  | mapFreeze
  | objGetInfoByFd
  | progAttach
  | other (cmd : Int)
deriving DecidableEq

/-- `union bpf_attr`: the members that the commands read. -/
structure BpfAttr where
  mapAttr    : MapAttr
  mapName    : CStr
  mapFd      : Int
  key        : Nat
  value      : Nat
  nextKey    : Nat
  flags      : BitVec 64
  insns      : List Vm.EbpfInst
  progName   : CStr
  progType   : BitVec 32
  progFd     : Int
  targetFd   : Int
  attachType : BitVec 32
  bpfCookie  : BitVec 64
  infoFd     : Int
deriving DecidableEq

/-- `perf_event_attr`; `config1` is the pointer `name`. -/
structure PerfEventAttr where
  type       : Int
  sampleType : BitVec 64
  config     : BitVec 64
  name       : Ptr CStr
  config2    : BitVec 64
deriving DecidableEq

/-- What is passed to `syscall`. -/
inductive SyscallArg where
  | int (value : Int)
  | cmd (cmd : BpfCmd)
  | str (s : Ptr CStr)
  | attr (attr : Ptr BpfAttr)
  | perfAttr (attr : Ptr PerfEventAttr)
deriving DecidableEq

inductive SysNo where
  | bpf
  | perfEventOpen
  | dup3
  | memfdCreate
deriving DecidableEq

/-- A call of an original function. -/
inductive OrigCall where
  | close (fd : Int)
  | openat (fd : Int) (file : Ptr CStr) (oflag : Int) (mode : BitVec 16)
  | openFile (file : Ptr CStr) (oflag : Int) (mode : BitVec 16)
  | read (fd : Int) (buf count : Nat)
  | syscall (sysno : SysNo) (args : List SyscallArg)
  | mmap (addr length : Nat) (prot flags : BitVec 32) (fd offset : Int)
  | ioctl (fd : Int) (req data : Nat)
  | epollCreate1 (flags : Int)
  | epollCtl (epfd op fd : Int) (evt : Ptr (BitVec 64))
  | epollWait (epfd : Int) (evt : Nat) (maxevents timeout : Int)
  | munmap (addr size : Nat)
  | fopen (pathname flags : Ptr CStr)
deriving DecidableEq

/-- `orig_syscall_fn(__NR_bpf, cmd, attr, size)` -/
def origBpf (cmd : BpfCmd) (attr : Ptr BpfAttr) (size : Nat) : OrigCall := .syscall .bpf [.cmd cmd, .attr attr, .int size]

/-- `orig_syscall_fn(__NR_perf_event_open, attr, pid, cpu, group_fd, flags)` -/
def origPerfEventOpen (attr : Ptr PerfEventAttr) (pid cpu groupFd : Int) (flags : Nat) : OrigCall :=
  .syscall .perfEventOpen [.perfAttr attr, .int pid, .int cpu, .int groupFd, .int flags]

/-! ## State -/

/-- `mocked_file_provider`; the replacement is the address of a `FILE`. -/
structure MockedFile where
  cursor          : Nat
  buf             : CStr
  replacementFile : Option Int

structure SyscallContext where
  runWithKernel               : Bool
  byPassKernelVerifierPattern : CStr
  enableMock                  : Bool
  initializingCuda            : Bool
  enableMockAfterInitialized  : Bool
  mockedMmapValues            : List Nat
  mockedFiles                 : Int → Option MockedFile

inductive VerifierMode where
  | noVerify
  | warning
  | strict
deriving DecidableEq, Inhabited

/-- What the functions answer that are neither handlers nor originals: bpftime's own, libbpf's, `mkstemp`, the file
system and `regex_match`. A build without the verifier is one that does not verify. The types of the probes are read from
files, which are closed again. `read_symlink` gives an empty path where it fails, and `is_directory` an exception. -/
structure Runtime where
  readSymlink                  : Int → CStr
  isDirectory                  : CStr → Option Bool
  mkstemp                      : Int
  fopenMock                    : Int
  isMapFd                      : Int → Bool
  isProgFd                     : Int → Bool
  isPerfEventFd                : Int → Bool
  isRingbufMap                 : Int → Bool
  isArrayMap                   : Int → Bool
  isSoftwarePerfEvent          : Int → Bool
  isEpollHandler               : Int → Bool
  ringbufConsumerPage          : Int → Option Nat
  ringbufProducerPage          : Int → Option Nat
  arrayMapRawData              : Int → Option Nat
  softwarePerfEventRawBuffer   : Int → Nat → Option Nat
  mapInfo                      : Int → Option (BitVec 32 × MapInfo)
  newAttr                      : Nat
  doExit                       : Nat
  regexMatch                   : CStr → CStr → Bool
  verifierMode                 : VerifierMode
  verifies                     : List Vm.EbpfInst → CStr → Bool
  mapsCreate                   : Int → CStr → MapAttr → Int
  mapLookupElem                : Int → Nat → Option Nat
  mapUpdateElem                : Int → Nat → Nat → BitVec 64 → Int
  mapDeleteElem                : Int → Nat → Int
  mapLookupAndDeleteElem       : Int → Nat → Int
  mapGetNextKey                : Int → Nat → Nat → Int
  mapGetInfo                   : Int → Int
  progsCreate                  : Int → List Vm.EbpfInst → CStr → BitVec 32 → Int
  linkCreate                   : BpfAttr → Int
  attachPerfToBpf              : Int → Int → Int
  uprobePerfType               : Int
  uprobeRetprobeBit            : Nat
  kprobePerfType               : Int
  kprobeRetprobeBit            : Nat
  uprobeCreate                 : Int → Int → CStr → BitVec 64 → Bool → BitVec 64 → Int
  kprobeCreate                 : Int → CStr → BitVec 64 → Bool → BitVec 64 → Int
  tracepointCreate             : Int → Int → BitVec 64 → Int
  addSoftwarePerfEvent         : Int → BitVec 64 → BitVec 64 → Int
  addUreplaceOrOverride        : Int → Int → CStr → BitVec 64 → Bool → Int
  perfEventEnable              : Int → Int
  perfEventDisable             : Int → Int
  epollCreate                  : Int
  addRingbufFdToEpoll          : Int → Int → BitVec 64 → Int
  addSoftwarePerfEventToEpoll  : Int → Int → BitVec 64 → Int
  epollWait                    : Int → Nat → Int → Int → Int
  mapsDup                      : Int → Int → Int
  addMemfdHandler              : CStr → Int → Int
deriving Inhabited

/-- What a handler returns, and the context it leaves. -/
structure Return where
  value : Int
  ctx   : SyscallContext

/-- A handler; `none` where the process ends in it. -/
abbrev Handled := Prog OrigCall Int (Option Return)

/-- What is at the pointer is read. -/
def Ptr.read {α : Type} (p : Ptr α) (next : α → Handled) : Handled :=
  match p.target with
  | some a => next a
  | none => .ret none

namespace SyscallContext

/-- `return value` -/
def ret (ctx : SyscallContext) (value : Int) : Handled := .ret (some ⟨value, ctx⟩)

/-- `return orig_fn(..)` -/
def orig (ctx : SyscallContext) (c : OrigCall) : Handled := .call c fun answer => ctx.ret answer

/-- The mock is disabled while `start_up` runs. -/
def tryStartup (ctx : SyscallContext) : SyscallContext := { ctx with enableMock := true }

@[simp] theorem tryStartup_enableMock (ctx : SyscallContext) : ctx.tryStartup.enableMock = true := rfl
@[simp] theorem tryStartup_initializingCuda (ctx : SyscallContext) :
    ctx.tryStartup.initializingCuda = ctx.initializingCuda := rfl
@[simp] theorem tryStartup_mockedMmapValues (ctx : SyscallContext) :
    ctx.tryStartup.mockedMmapValues = ctx.mockedMmapValues := rfl

/-! ## Mocked files -/

/-- A path's elements, as `std::filesystem::path` compares them: the root, the names, and an empty one at the end of a path
    with a slash behind its last name. -/
def pathElements (path : CStr) : Bool × List CStr × Bool :=
  (path.head? == some 0x2f, (path.splitOn 0x2f).filter (· ≠ []), path.getLast? == some 0x2f)

def samePath (path path' : CStr) : Bool := decide (pathElements path = pathElements path')

def UPROBE_TYPE_FILE_NAME : CStr := cstr "/sys/bus/event_source/devices/uprobe/type"
def URETPROBE_BIT_FILE_NAME : CStr := cstr "/sys/bus/event_source/devices/uprobe/format/retprobe"

/-- The contents are `MOCKED_UPROBE_TYPE_VALUE` and `MOCKED_URETPROBE_BIT`. -/
def createMockedFileBasedOnFullPath (path : CStr) : Option MockedFile :=
  if samePath path UPROBE_TYPE_FILE_NAME then some ⟨0, cstr "9", none⟩
  else if samePath path URETPROBE_BIT_FILE_NAME then some ⟨0, cstr "config:0", none⟩
  else none

/-- The fd's path, if it is that of a directory, and the file there; an absolute file replaces it. The outer `none` is an
exception, or a fault. -/
def resolveFilenameAndFdToFullPath (rt : Runtime) (fd : Int) (file : Ptr CStr) : Option (Option CStr) :=
  let dirPath := rt.readSymlink fd
  if dirPath = [] then some none
  else
    (rt.isDirectory dirPath).bind fun isDirectory =>
      if !isDirectory then some none
      else file.target.map fun file => some (if file.head? == some 0x2f then file else dirPath ++ 0x2f :: file)

def addMockedFile (ctx : SyscallContext) (fd : Int) (file : MockedFile) : SyscallContext :=
  { ctx with mockedFiles := fun n => if n = fd then some file else ctx.mockedFiles n }

/-- `unordered_map::emplace`: a file that is there stays. -/
def emplaceMockedFile (ctx : SyscallContext) (fd : Int) (file : MockedFile) : SyscallContext :=
  if (ctx.mockedFiles fd).isSome then ctx else ctx.addMockedFile fd file

/-! ## Handlers -/

/-- `bpftime_close`, which comes before the original, is not among the calls. -/
def handleClose (ctx : SyscallContext) (fd : Int) : Handled :=
  if !ctx.enableMock || ctx.initializingCuda || !ctx.enableMockAfterInitialized then ctx.orig (.close fd)
  else
    let ctx := ctx.tryStartup
    if (ctx.mockedFiles fd).isSome then
      { ctx with mockedFiles := fun n => if n = fd then none else ctx.mockedFiles n }.ret 0
    else ctx.orig (.close fd)

def handleOpenat (rt : Runtime) (ctx : SyscallContext) (fd : Int) (file : Ptr CStr) (oflag : Int) (mode : BitVec 16) :
    Handled :=
  if !ctx.enableMock || ctx.initializingCuda || !ctx.enableMockAfterInitialized then
    ctx.orig (.openat fd file oflag mode)
  else
    let ctx := ctx.tryStartup
    match resolveFilenameAndFdToFullPath rt fd file with
    | none => .ret none
    | some none => ctx.orig (.openat fd file oflag mode)
    | some (some path) =>
      match createMockedFileBasedOnFullPath path with
      | some mocker =>
        -- no fd could be made for the mocked file
        if rt.mkstemp < 0 then ctx.orig (.openFile file oflag mode)
        else (ctx.emplaceMockedFile rt.mkstemp mocker).ret rt.mkstemp
      | none => ctx.orig (.openat fd file oflag mode)

def handleOpen (rt : Runtime) (ctx : SyscallContext) (file : Ptr CStr) (oflag : Int) (mode : BitVec 16) : Handled :=
  if !ctx.enableMock || ctx.initializingCuda || !ctx.enableMockAfterInitialized then
    ctx.orig (.openFile file oflag mode)
  else
    let ctx := ctx.tryStartup
    file.read fun path =>
      match createMockedFileBasedOnFullPath path with
      | some mocker =>
        if rt.mkstemp < 0 then ctx.orig (.openFile file oflag mode)
        else (ctx.emplaceMockedFile rt.mkstemp mocker).ret rt.mkstemp
      | none => ctx.orig (.openFile file oflag mode)

/-- The bytes copied to `buf` are those behind the cursor. -/
def handleRead (ctx : SyscallContext) (fd : Int) (buf count : Nat) : Handled :=
  if !ctx.enableMock || ctx.initializingCuda || !ctx.enableMockAfterInitialized then ctx.orig (.read fd buf count)
  else
    let ctx := ctx.tryStartup
    match ctx.mockedFiles fd with
    | some mockFile =>
      let canReadBytes := min count (mockFile.buf.length - mockFile.cursor)
      if canReadBytes = 0 then ctx.ret 0
      else (ctx.addMockedFile fd { mockFile with cursor := mockFile.cursor + canReadBytes }).ret canReadBytes
    | none => ctx.orig (.read fd buf count)

/-- `bpftime_translate_shared_map_type_to_kernel_map_type`: `GPU_KERNEL_SHARED_ARRAY_MAP` is an array in the kernel. -/
def translateSharedMapTypeToKernelMapType (type : BitVec 32) : BitVec 32 := if type = 1504 then 2 else type

def createKernelBpfMap (rt : Runtime) (mapFd : Int) (bpftimeMapType : BitVec 32) : Int :=
  match rt.mapInfo mapFd with
  | none => -1
  | some (id, info) =>
    if rt.isMapFd id.toNat then 0
    else if rt.mapsCreate id.toNat info.name (info.attr bpftimeMapType id) < 0 then -1 else mapFd

/-- The program in `trival_prog_insns`. -/
def trivalProgInsns : List Vm.EbpfInst :=
  [{ opcode := 0xb7, dst := 0, src := 0, offset := 0, imm := 0 },
    { opcode := Vm.EBPF_OP_EXIT, dst := 0, src := 0, offset := 0, imm := 0 }]

def createKernelBpfProgInUserspace (rt : Runtime) (ctx : SyscallContext) (cmd : BpfCmd) (attr : Ptr BpfAttr)
    (size : Nat) : Handled :=
  attr.read fun members =>
    let loaded : Ptr BpfAttr :=
      if ctx.byPassKernelVerifierPattern ≠ [] ∧ rt.regexMatch ctx.byPassKernelVerifierPattern members.progName = true then
        ⟨rt.newAttr, some { members with insns := trivalProgInsns }⟩
      else attr
    .call (origBpf cmd loaded size) fun res =>
      if res < 0 then ctx.ret res
      else
        match Handler.relocateInsns (fun fd => (rt.mapInfo fd.toInt).map Prod.fst) members.insns with
        | none => ctx.ret (-1)
        | some insns => ctx.ret (rt.progsCreate res insns members.progName members.progType)

/-- The section that a program is verified for: only tracepoints and uprobes are. -/
def simpleSectionName (progType : BitVec 32) : Option CStr :=
  if progType = 5 then some (cstr "tracepoint") else if progType = 1 then some (cstr "uprobe") else none

/-- The user-space verifier refuses the program. -/
def refused (rt : Runtime) (attr : BpfAttr) : Bool :=
  match simpleSectionName attr.progType with
  | some name => rt.verifierMode == .strict && !rt.verifies attr.insns name
  | none => false

/-- A command on the elements of a map, which the kernel answers if it runs along. The log reads the members first. -/
def bpfOrKernel (ctx : SyscallContext) (cmd : BpfCmd) (attr : Ptr BpfAttr) (size : Nat) (answer : BpfAttr → Int) :
    Handled :=
  attr.read fun members =>
    if ctx.runWithKernel then ctx.orig (origBpf cmd attr size) else ctx.ret (answer members)

/-- A link or an attachment, which the kernel makes if it runs along and the target is no perf event of bpftime's. -/
def bpfForPerfEvent (rt : Runtime) (ctx : SyscallContext) (cmd : BpfCmd) (attr : Ptr BpfAttr) (size : Nat)
    (answer : BpfAttr → Int) : Handled :=
  attr.read fun members =>
    if ctx.runWithKernel && !rt.isPerfEventFd members.targetFd then ctx.orig (origBpf cmd attr size)
    else ctx.ret (answer members)

def handleSysbpf (rt : Runtime) (ctx : SyscallContext) (cmd : BpfCmd) (attr : Ptr BpfAttr) (size : Nat) : Handled :=
  if !ctx.enableMock || ctx.initializingCuda || !ctx.enableMockAfterInitialized then ctx.orig (origBpf cmd attr size)
  else
    let ctx := ctx.tryStartup
    match cmd with
    | .mapCreate =>
      attr.read fun members =>
        if ctx.runWithKernel then
          let translatedMapType := translateSharedMapTypeToKernelMapType members.mapAttr.type
          let newAttr := { members with mapAttr := { members.mapAttr with type := translatedMapType } }
          .call (origBpf cmd ⟨rt.newAttr, some newAttr⟩ size) fun fd =>
            -- a kernel-user map has a type of its own, a kernel-gpu map keeps the one it came with
            let bpftimeMapType :=
              if translatedMapType = members.mapAttr.type then members.mapAttr.type + Handler.KERNEL_USER_MAP_OFFSET
              else members.mapAttr.type
            ctx.ret (createKernelBpfMap rt fd bpftimeMapType)
        else ctx.ret (rt.mapsCreate (-1) members.mapName members.mapAttr)
    | .mapLookupElem =>
      ctx.bpfOrKernel cmd attr size fun members =>
        if (rt.mapLookupElem members.mapFd members.key).isSome then 0 else -1
    | .mapUpdateElem =>
      ctx.bpfOrKernel cmd attr size fun members =>
        rt.mapUpdateElem members.mapFd members.key members.value members.flags
    | .mapDeleteElem => ctx.bpfOrKernel cmd attr size fun members => rt.mapDeleteElem members.mapFd members.key
    | .mapLookupAndDeleteElem =>
      ctx.bpfOrKernel cmd attr size fun members => rt.mapLookupAndDeleteElem members.mapFd members.value
    | .mapGetNextKey =>
      ctx.bpfOrKernel cmd attr size fun members => rt.mapGetNextKey members.mapFd members.key members.nextKey
    | .progLoad =>
      attr.read fun members =>
        if ctx.runWithKernel then createKernelBpfProgInUserspace rt ctx cmd attr size
        else if refused rt members then ctx.ret (-1)
        else ctx.ret (rt.progsCreate (-1) members.insns members.progName members.progType)
    | .linkCreate =>
      -- the attachment with a cookie that may follow changes no result
      bpfForPerfEvent rt ctx cmd attr size rt.linkCreate
    | .mapFreeze =>
      -- nothing is read
      if ctx.runWithKernel then ctx.orig (origBpf cmd attr size)
      else ctx.ret 0
    | .objGetInfoByFd =>
      if ctx.runWithKernel then ctx.orig (origBpf cmd attr size)
      else
        attr.read fun members =>
          if rt.isMapFd members.infoFd then ctx.ret (if rt.mapGetInfo members.infoFd < 0 then -1 else 0)
          else if rt.isProgFd members.infoFd then ctx.ret 0
          else ctx.ret 0
    | .progAttach =>
      bpfForPerfEvent rt ctx cmd attr size fun members => rt.attachPerfToBpf members.targetFd members.progFd
    | .other _ => ctx.orig (origBpf cmd attr size)

def PERF_TYPE_TRACEPOINT : Int := 2
def PERF_TYPE_SOFTWARE : Int := 1
def BPF_TYPE_UREPLACE : Int := 1009
def BPF_TYPE_UPROBE_OVERRIDE : Int := 1008
def PERF_UPROBE_REF_CTR_OFFSET_SHIFT : Nat := 32

/-- `attr->config & (1 << bit)` -/
def hasBit (config : BitVec 64) (bit : Nat) : Bool := config &&& ((1 : BitVec 32) <<< bit).signExtend 64 != 0

def handlePerfevent (rt : Runtime) (ctx : SyscallContext) (attr : Ptr PerfEventAttr) (pid cpu groupFd : Int)
    (flags : Nat) : Handled :=
  if !ctx.enableMock || ctx.initializingCuda || !ctx.enableMockAfterInitialized then
    ctx.orig (origPerfEventOpen attr pid cpu groupFd flags)
  else
    let ctx := ctx.tryStartup
    attr.read fun members =>
      let refCtrOff := members.config >>> PERF_UPROBE_REF_CTR_OFFSET_SHIFT
      if members.type = rt.uprobePerfType then
        if ctx.runWithKernel then ctx.orig (origPerfEventOpen attr pid cpu groupFd flags)
        else
          let retprobe := hasBit members.config rt.uprobeRetprobeBit
          members.name.read fun name => ctx.ret (rt.uprobeCreate (-1) pid name members.config2 retprobe refCtrOff)
      else if members.type = rt.kprobePerfType then
        let isRetProbe := hasBit members.config rt.kprobeRetprobeBit
        -- the name becomes a string whoever creates the probe
        members.name.read fun name =>
          if (cstr "cuda_").isPrefixOf name && ctx.runWithKernel then
            -- a probe on the GPU takes the fd of a kprobe on `do_exit`
            let newAttr := { members with name := ⟨rt.doExit, some (cstr "do_exit")⟩, config2 := 0 }
            .call (origPerfEventOpen ⟨rt.newAttr, some newAttr⟩ pid cpu groupFd flags) fun newFd =>
              if newFd < 0 then ctx.ret (-1)
              else ctx.ret (rt.kprobeCreate newFd (name.drop 5) members.config2 isRetProbe refCtrOff)
          else if ctx.runWithKernel then ctx.orig (origPerfEventOpen attr pid cpu groupFd flags)
          else ctx.ret (rt.kprobeCreate (-1) name members.config2 isRetProbe refCtrOff)
      else if members.type = PERF_TYPE_TRACEPOINT then
        if ctx.runWithKernel then ctx.orig (origPerfEventOpen attr pid cpu groupFd flags)
        else ctx.ret (rt.tracepointCreate (-1) pid members.config)
      else if members.type = PERF_TYPE_SOFTWARE then
        ctx.ret (rt.addSoftwarePerfEvent cpu members.sampleType members.config)
      else if members.type = BPF_TYPE_UREPLACE then
        members.name.read fun name => ctx.ret (rt.addUreplaceOrOverride (-1) pid name members.config2 true)
      else if members.type = BPF_TYPE_UPROBE_OVERRIDE then
        members.name.read fun name => ctx.ret (rt.addUreplaceOrOverride (-1) pid name members.config2 false)
      else ctx.orig (origPerfEventOpen attr pid cpu groupFd flags)

def PROT_READ : BitVec 32 := 1
def PROT_WRITE : BitVec 32 := 2
def MAP_ANONYMOUS : BitVec 32 := 0x20

/-- The memory of bpftime that is mapped in place of the fd's. -/
def mockedMmap (rt : Runtime) (length : Nat) (prot : BitVec 32) (fd : Int) : Option Nat :=
  if fd ≠ -1 ∧ rt.isRingbufMap fd = true then
    if prot = PROT_WRITE ||| PROT_READ then rt.ringbufConsumerPage fd
    else if prot = PROT_READ then rt.ringbufProducerPage fd
    else none
  else if fd ≠ -1 ∧ rt.isArrayMap fd = true then rt.arrayMapRawData fd
  else if fd ≠ -1 ∧ rt.isSoftwarePerfEvent fd = true then rt.softwarePerfEventRawBuffer fd length
  else none

def handleMmap64 (rt : Runtime) (ctx : SyscallContext) (addr length : Nat) (prot flags : BitVec 32) (fd offset : Int) :
    Handled :=
  if !ctx.enableMock || ctx.runWithKernel || ctx.initializingCuda then
    ctx.orig (.mmap addr length prot flags fd offset)
  else
    let ctx := ctx.tryStartup
    match mockedMmap rt length prot fd with
    | some ptr => { ctx with mockedMmapValues := ctx.mockedMmapValues.insert ptr }.ret ptr
    | none =>
      -- an anonymous mapping, whose address nothing reads, comes before
      .call (.mmap addr length (prot ||| PROT_WRITE) (flags ||| MAP_ANONYMOUS) (-1) 0) fun _ =>
        ctx.orig (.mmap addr length prot flags fd offset)

/-- `orig_mmap_fn` and `orig_mmap64_fn` are one function. -/
def handleMmap (rt : Runtime) (ctx : SyscallContext) (addr length : Nat) (prot flags : BitVec 32) (fd offset : Int) :
    Handled :=
  if !ctx.enableMock || ctx.runWithKernel || ctx.initializingCuda || !ctx.enableMockAfterInitialized then
    ctx.orig (.mmap addr length prot flags fd offset)
  else handleMmap64 rt ctx.tryStartup addr length prot flags fd offset

def PERF_EVENT_IOC_ENABLE : Nat := 0x2400
def PERF_EVENT_IOC_DISABLE : Nat := 0x2401
def PERF_EVENT_IOC_SET_BPF : Nat := 0x40042408

/-- What bpftime answers to a request for a perf event; other requests it does not know. -/
def perfEventIoctl (rt : Runtime) (fd : Int) (req data : Nat) : Option Int :=
  if req = PERF_EVENT_IOC_ENABLE then some (rt.perfEventEnable fd)
  else if req = PERF_EVENT_IOC_DISABLE then some (rt.perfEventDisable fd)
  else if req = PERF_EVENT_IOC_SET_BPF then some (rt.attachPerfToBpf fd data)
  else none

def handleIoctl (rt : Runtime) (ctx : SyscallContext) (fd : Int) (req data : Nat) : Handled :=
  if !ctx.enableMock || ctx.initializingCuda || !ctx.enableMockAfterInitialized then ctx.orig (.ioctl fd req data)
  else
    let ctx := ctx.tryStartup
    match perfEventIoctl rt fd req data with
    | some res =>
      if ctx.runWithKernel && !rt.isPerfEventFd fd then ctx.orig (.ioctl fd req data)
      else if 0 ≤ res then ctx.ret res
      else ctx.orig (.ioctl fd req data)
    | none => ctx.orig (.ioctl fd req data)

def handleEpollCreate1 (rt : Runtime) (ctx : SyscallContext) (flags : Int) : Handled :=
  if !ctx.enableMock || ctx.runWithKernel || ctx.initializingCuda || !ctx.enableMockAfterInitialized then
    ctx.orig (.epollCreate1 flags)
  else ctx.tryStartup.ret rt.epollCreate

def EPOLL_CTL_ADD : Int := 1

def handleEpollCtl (rt : Runtime) (ctx : SyscallContext) (epfd op fd : Int) (evt : Ptr (BitVec 64)) : Handled :=
  if !ctx.enableMock || ctx.runWithKernel || !ctx.enableMockAfterInitialized then ctx.orig (.epollCtl epfd op fd evt)
  else
    let ctx := ctx.tryStartup
    if op = EPOLL_CTL_ADD ∧ rt.isRingbufMap fd = true then
      evt.read fun data =>
        if rt.addRingbufFdToEpoll fd epfd data = 0 then ctx.ret 0 else ctx.orig (.epollCtl epfd op fd evt)
    else if op = EPOLL_CTL_ADD ∧ rt.isSoftwarePerfEvent fd = true then
      evt.read fun data =>
        if rt.addSoftwarePerfEventToEpoll fd epfd data = 0 then ctx.ret 0 else ctx.orig (.epollCtl epfd op fd evt)
    else ctx.orig (.epollCtl epfd op fd evt)

/-- What `handle_epoll_wait` does behind its test of the mode. -/
def epollWaitMocked (rt : Runtime) (ctx : SyscallContext) (epfd : Int) (evt : Nat) (maxevents timeout : Int) : Handled :=
  let ctx := ctx.tryStartup
  if rt.isEpollHandler epfd then ctx.ret (rt.epollWait epfd evt maxevents timeout)
  else ctx.orig (.epollWait epfd evt maxevents timeout)

/-- The original is called without a `return`. -/
def handleEpollWait (rt : Runtime) (ctx : SyscallContext) (epfd : Int) (evt : Nat) (maxevents timeout : Int) : Handled :=
  if !ctx.enableMock || ctx.runWithKernel || ctx.initializingCuda || !ctx.enableMockAfterInitialized then
    .call (.epollWait epfd evt maxevents timeout) fun _ => epollWaitMocked rt ctx epfd evt maxevents timeout
  else epollWaitMocked rt ctx epfd evt maxevents timeout

/-- What `handle_munmap` does behind its test of the mode. -/
def munmapMocked (ctx : SyscallContext) (addr size : Nat) : Handled :=
  let ctx := ctx.tryStartup
  if addr ∈ ctx.mockedMmapValues then { ctx with mockedMmapValues := ctx.mockedMmapValues.erase addr }.ret 0
  else ctx.orig (.munmap addr size)

/-- The original is called without a `return`. -/
def handleMunmap (ctx : SyscallContext) (addr size : Nat) : Handled :=
  if !ctx.enableMock || ctx.runWithKernel || ctx.initializingCuda || !ctx.enableMockAfterInitialized then
    .call (.munmap addr size) fun _ => munmapMocked ctx addr size
  else munmapMocked ctx addr size

def handleFopen (rt : Runtime) (ctx : SyscallContext) (pathname flags : Ptr CStr) : Handled :=
  if !ctx.enableMock || ctx.initializingCuda || !ctx.enableMockAfterInitialized then ctx.orig (.fopen pathname flags)
  else
    let ctx := ctx.tryStartup
    pathname.read fun path =>
      match createMockedFileBasedOnFullPath path with
      | some mocker =>
        if rt.mkstemp < 0 then ctx.orig (.fopen pathname flags)
        else
          -- the replacement goes to the file that the fd has now, new or not
          let ctx := ctx.emplaceMockedFile rt.mkstemp mocker
          let file := (ctx.mockedFiles rt.mkstemp).getD mocker
          (ctx.addMockedFile rt.mkstemp { file with replacementFile := some rt.fopenMock }).ret rt.fopenMock
      | none => ctx.orig (.fopen pathname flags)

def handleDup3 (rt : Runtime) (ctx : SyscallContext) (oldfd newfd flags : Int) : Handled :=
  if !ctx.enableMock || ctx.runWithKernel || ctx.initializingCuda || !ctx.enableMockAfterInitialized then
    ctx.orig (.syscall .dup3 [.int oldfd, .int newfd, .int flags])
  else
    let ctx := ctx.tryStartup
    if rt.isMapFd oldfd then ctx.ret (rt.mapsDup oldfd newfd)
    else ctx.orig (.syscall .dup3 [.int oldfd, .int newfd, .int flags])

/-- Without the mock it is `dup3` that is called. -/
def handleMemfdCreate (rt : Runtime) (ctx : SyscallContext) (name : Ptr CStr) (flags : Int) : Handled :=
  if !ctx.enableMock || ctx.initializingCuda || !ctx.enableMockAfterInitialized then
    ctx.orig (.syscall .dup3 [.str name, .int flags])
  else
    let ctx := ctx.tryStartup
    name.read fun name => ctx.ret (rt.addMemfdHandler name flags)

end SyscallContext

end Server
