import Aivm.Model.Vm
import Aivm.Syscalls.Contracts

/-!
# Profiles and the initial state

`aivm_runtime_profile_limits`, `aivm_set_runtime_profile` and the part of `aivm_reset_state` that only clears
fields. A reset does not touch the slots of the locals array, so what was stored there stays.
-/

namespace Aivm

structure RuntimeProfileLimits where
  stringArenaCapacity : Nat
  bytesArenaCapacity : Nat
  nodeCapacity : Nat
  nodeAttrCapacity : Nat
  nodeChildCapacity : Nat
  workerLogicalTaskCapacity : Nat
  workerLogicalInputBytes : Nat
  syscallElapsedMs : Nat
deriving DecidableEq, Repr

def runtimeProfileLimits : RuntimeProfile → RuntimeProfileLimits
  | .tooling =>
      { stringArenaCapacity := 16 * 1024 * 1024, bytesArenaCapacity := 16 * 1024 * 1024, nodeCapacity := 65536
        nodeAttrCapacity := 262144, nodeChildCapacity := 524288, workerLogicalTaskCapacity := 4096
        workerLogicalInputBytes := 16 * 1024 * 1024, syscallElapsedMs := 30000 }
  | _ =>
      { stringArenaCapacity := 2097152, bytesArenaCapacity := 131072, nodeCapacity := 16384
        nodeAttrCapacity := vmNodeAttrCapacity, nodeChildCapacity := vmNodeChildCapacity
        workerLogicalTaskCapacity := 4096, workerLogicalInputBytes := 131072, syscallElapsedMs := 30000 }

def setRuntimeProfile (profile : RuntimeProfile) (vm : Vm) : Vm :=
  let limits := runtimeProfileLimits profile
  { vm with
    runtimeProfile := profile
    stringArenaCapacity := limits.stringArenaCapacity
    bytesArenaCapacity := limits.bytesArenaCapacity
    nodeCapacity := limits.nodeCapacity
    nodeAttrCapacity := limits.nodeAttrCapacity
    nodeChildCapacity := limits.nodeChildCapacity
    syscallElapsedLimitMs := limits.syscallElapsedMs
    workerLogicalTaskLimit := limits.workerLogicalTaskCapacity
    workerLogicalInputLimit := limits.workerLogicalInputBytes
    syscallPolicy := if profile = .production then policyAllowProductionDefault else policyAllowAll }

/-- A VM whose memory has just been zeroed. -/
def zeroedVm (program : Program) : Vm where
  stringArena := []
  stringBlock := 0
  bytesArena := []
  bytesBlock := 0
  nodes := []
  nodeAttrs := []
  nodeChildren := []
  scratchPairs := []
  stackLimit := 0
  callFrameLimit := 0
  localsLimit := 0
  stringArenaLimit := 0
  stringArenaCapacity := 0
  bytesArenaLimit := 0
  bytesArenaCapacity := 0
  bytesArenaGcThreshold := 0
  nodeCapacity := 0
  nodeAttrCapacity := 0
  nodeChildCapacity := 0
  hostMemoryGrowthSuspended := false
  program := program
  runtimeProfile := .production
  instructionPointer := 0
  status := .ready
  error := .none
  errorDetail := ""
  stack := []
  callFrames := []
  recentCalls := []
  recentReturns := []
  recentOpcodes := []
  locals := []
  staleLocals := []
  stringIntern := ⟨[], 0, false⟩
  utf8OffsetCache := ⟨.null, 0, 0⟩
  syscallPolicy := 0
  syscallBindings := []
  processArgv := []
  processArgvNodeHandle := 0
  completedTasks := []
  consumedTaskHandles := []
  nextTaskHandle := 0
  workerRuntime := none
  workerTaskGroups := []
  workerLogicalTaskCount := 0
  workerLogicalInputBytes := 0
  workerLogicalTaskLimit := 0
  workerLogicalInputLimit := 0
  nextWorkerTaskGroupHandle := 0
  parContexts := []
  parValues := []
  nextParNodeId := 0
  nodeBuilders := []
  maps := []
  uiDefaultWindowSizeNodeHandle := 0
  uiEmptyEventNodeHandle := 0
  nodeAllocationsSinceGc := 0
  networkReadBytesUsed := 0
  networkWriteBytesUsed := 0
  syscallElapsedLimitMs := 0
  counters := ⟨0, 0, 0, 0, 0, 0, 0, 0, 0, 0, 0, 0, 0, 0, 0, 0⟩
  hostClock := 0
  events := []

/-- `aivm_reset_state` up to the construction of the argument node. -/
def resetFields (vm : Vm) : Vm :=
  { vm with
    nodeBuilders := []
    maps := []
    workerRuntime := none
    workerTaskGroups := []
    workerLogicalTaskCount := 0
    workerLogicalInputBytes := 0
    instructionPointer := 0
    status := .ready
    error := .none
    errorDetail := ""
    stack := []
    stackLimit := stackInitialCapacity
    callFrames := []
    callFrameLimit := callFrameInitialCapacity
    recentCalls := []
    recentReturns := []
    recentOpcodes := []
    locals := []
    staleLocals := vm.locals ++ vm.staleLocals
    localsLimit := localsInitialCapacity
    stringArena := []
    stringArenaLimit := min vm.stringArenaCapacity stringArenaInitialCapacity
    stringIntern := ⟨vm.stringIntern.entries.map fun _ => ⟨0, 0, 0⟩, 0, true⟩
    utf8OffsetCache := ⟨.null, 0, 0⟩
    bytesArena := []
    bytesArenaLimit := min vm.bytesArenaCapacity bytesArenaInitialCapacity
    bytesArenaGcThreshold := min vm.bytesArenaCapacity bytesArenaInitialCapacity
    completedTasks := []
    nextTaskHandle := 1
    nextWorkerTaskGroupHandle := 1
    parContexts := []
    parValues := []
    scratchPairs := []
    nextParNodeId := 1
    nodes := []
    nodeAttrs := []
    nodeChildren := []
    counters := ⟨0, 0, 0, 0, 0, 0, 0, 0, 0, 0, 0, 0, 0, 0, 0, 0⟩
    nodeAllocationsSinceGc := 0
    hostMemoryGrowthSuspended := false
    networkReadBytesUsed := 0
    networkWriteBytesUsed := 0
    processArgvNodeHandle := 0
    uiDefaultWindowSizeNodeHandle := 0
    uiEmptyEventNodeHandle := 0
    events := [] }

/-- A VM just initialized with a profile and a program, before any argument has been passed. -/
def freshVm (profile : RuntimeProfile) (program : Program) : Vm :=
  resetFields (setRuntimeProfile profile (zeroedVm program))

end Aivm
