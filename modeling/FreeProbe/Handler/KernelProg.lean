import FreeProbe.Handler.Manager
import FreeProbe.Vm.Ebpf

/-!
# `Handler.KernelProg` — programs and maps of the kernel

What is taken over from the kernel when one of its programs or maps gets a counterpart in the table: the attributes of
the map, and the instructions of the program, with the fds of its maps replaced by the maps' ids.
-/

namespace Handler

/-- `bpf_map_info` -/
structure MapInfo where
  type                  : BitVec 32
  keySize               : BitVec 32
  valueSize             : BitVec 32
  maxEntries            : BitVec 32
  mapFlags              : BitVec 32
  name                  : CStr
  ifindex               : BitVec 32
  btfVmlinuxValueTypeId : BitVec 32
  btfId                 : BitVec 32
  btfKeyTypeId          : BitVec 32
  btfValueTypeId        : BitVec 32
deriving DecidableEq

def KERNEL_USER_MAP_OFFSET : BitVec 32 := 1000

/-- The attributes of the counterpart of a kernel map; the thread count is the default of `bpf_map_attr`. -/
def MapInfo.attr (info : MapInfo) (type id : BitVec 32) : MapAttr where
  type                  := type
  keySize               := info.keySize
  valueSize             := info.valueSize
  maxEnts               := info.maxEntries
  flags                 := info.mapFlags.setWidth 64
  ifindex               := info.ifindex
  btfVmlinuxValueTypeId := info.btfVmlinuxValueTypeId
  btfId                 := info.btfId
  btfKeyTypeId          := info.btfKeyTypeId
  btfValueTypeId        := info.btfValueTypeId
  mapExtra              := 0
  kernelBpfMapId        := id
  gpuThreadCount        := 1024

/-- An `LDDW` that refers to a map by its fd. -/
def refersToMap (inst : Vm.EbpfInst) : Bool :=
  inst.opcode == Vm.EBPF_OP_LDDW && (inst.src == 1 || inst.src == 2)

@[simp] theorem refersToMap_imm (inst : Vm.EbpfInst) (imm : BitVec 32) :
    refersToMap { inst with imm := imm } = refersToMap inst := rfl

/-- A reference to a map becomes one to the map's id, if the fd has one. -/
def relocateInst (mapId : BitVec 32 → Option (BitVec 32)) (inst : Vm.EbpfInst) : Option Vm.EbpfInst :=
  if refersToMap inst then (mapId inst.imm).map fun id => { inst with imm := id } else some inst

/-- The loop over the instructions; an fd without an id ends it. -/
def relocateInsns (mapId : BitVec 32 → Option (BitVec 32)) : List Vm.EbpfInst → Option (List Vm.EbpfInst)
  | [] => some []
  | inst :: insns => (relocateInst mapId inst).bind fun inst => (relocateInsns mapId insns).map (inst :: ·)

end Handler
