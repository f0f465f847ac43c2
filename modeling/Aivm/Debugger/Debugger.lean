import Aivm.Machine.Step

/-!
# The debugger

`AivmDebugger` and its commands. A debugger without a VM, which refuses every command, and the count of blobs in its
snapshots are left out. Names are C strings: their bytes without the terminator.
-/

namespace Aivm

def debuggerMaxBreakpoints : Nat := 128
def debuggerMaxSourceMappings : Nat := 128
def debuggerSourceNameLength : Nat := 128

inductive DebuggerStatus where
  | ok
  | invalid
  | breakpointLimit
  | stepLimit
  | halted
  | vm
deriving DecidableEq, Repr

inductive DebuggerState where
  | ready
  | paused
  | running
  | halted
  | error
deriving DecidableEq, Repr

structure DebuggerSourceMapping where
  name : List Byte
  pc : Nat
deriving DecidableEq, Repr

/-- `AivmDebuggerSnapshot`; there is no opcode outside of the program. -/
structure DebuggerSnapshot where
  pc : Nat
  opcode : Option Opcode
  stackCount : Nat
  localsCount : Nat
  callFrameCount : Nat
  completedTaskCount : Nat
  nodeCount : Nat
  nodeAttrCount : Nat
  nodeChildCount : Nat
  syscallBindingCount : Nat
  processArgvCount : Nat
  activeHostOperationCount : Nat
  vmStatus : VmStatus
  vmError : VmError
  debuggerState : DebuggerState
deriving DecidableEq, Repr

/-- The source mappings of one kind, at most as many as their array holds. -/
abbrev DebuggerMappings : Type := { mappings : List DebuggerSourceMapping // mappings.length ≤ debuggerMaxSourceMappings }

structure Debugger where
  vm : Vm
  state : DebuggerState
  breakpoints : List Nat
  breakpoints_le : breakpoints.length ≤ debuggerMaxBreakpoints
  functionMappings : DebuggerMappings
  nodeMappings : DebuggerMappings
  activeHostOperationCount : Nat
  executedStepCount : Nat

/-- What a command returns, and the snapshot it writes. -/
structure DebuggerReply where
  status : DebuggerStatus
  snapshot : Option DebuggerSnapshot
deriving DecidableEq, Repr

/-- A status without a snapshot. -/
def DebuggerStatus.reply (status : DebuggerStatus) : DebuggerReply := ⟨status, none⟩

namespace Debugger

/-! ## State and snapshots -/

/-- `has_breakpoint`. -/
def hasBreakpoint (d : Debugger) (pc : Nat) : Bool := d.breakpoints.contains pc

/-- `sync_state`. -/
def syncState (d : Debugger) : Debugger :=
  match d.vm.status with
  | .halted => { d with state := .halted }
  | .error => { d with state := .error }
  | _ => d

/-- `capture_snapshot`. -/
def captureSnapshot (d : Debugger) : DebuggerSnapshot where
  pc := d.vm.instructionPointer
  opcode := d.vm.program.instructions[d.vm.instructionPointer]?.map (·.opcode)
  stackCount := d.vm.stack.length
  localsCount := d.vm.locals.length
  callFrameCount := d.vm.callFrames.length
  completedTaskCount := d.vm.completedTasks.length
  nodeCount := d.vm.nodes.length
  nodeAttrCount := d.vm.nodeAttrs.length
  nodeChildCount := d.vm.nodeChildren.length
  syscallBindingCount := d.vm.syscallBindings.length
  processArgvCount := d.vm.processArgv.length
  activeHostOperationCount := d.activeHostOperationCount
  vmStatus := d.vm.status
  vmError := d.vm.error
  debuggerState := d.state

/-- A command that ends with a snapshot. -/
def answer (d : Debugger) (status : DebuggerStatus) : Debugger × DebuggerReply := (d, ⟨status, some d.captureSnapshot⟩)

/-- The status that tells the state of the debugger. -/
def stateStatus (d : Debugger) : DebuggerStatus :=
  match d.state with
  | .halted => .halted
  | .error => .vm
  | _ => .ok

/-- `aivm_debugger_init`. -/
def init (vm : Vm) : Debugger :=
  syncState
    { vm
      state := .ready
      breakpoints := []
      breakpoints_le := Nat.zero_le _
      functionMappings := ⟨[], Nat.zero_le _⟩
      nodeMappings := ⟨[], Nat.zero_le _⟩
      activeHostOperationCount := 0
      executedStepCount := 0 }

/-! ## Breakpoints -/

/-- `aivm_debugger_break_pc`. -/
def breakPc (d : Debugger) (pc : Nat) : Debugger × DebuggerReply :=
  if instructionCount d.vm ≤ pc then (d, DebuggerStatus.invalid.reply)
  else if d.hasBreakpoint pc then (d, DebuggerStatus.ok.reply)
  else if h : debuggerMaxBreakpoints ≤ d.breakpoints.length then (d, DebuggerStatus.breakpointLimit.reply)
  else
    ({ d with
        breakpoints := d.breakpoints ++ [pc]
        breakpoints_le := by simpa using Nat.lt_of_not_le h },
      DebuggerStatus.ok.reply)

/-- The name as its buffer keeps it. -/
def mappingName (name : List Byte) : List Byte := name.take (debuggerSourceNameLength - 1)

/-- `register_mapping`. -/
def registerMapping (d : Debugger) (mappings : DebuggerMappings) (name : List Byte) (pc : Nat) :
    DebuggerMappings × DebuggerStatus :=
  if name = [] ∨ instructionCount d.vm ≤ pc then (mappings, .invalid)
  else
    match mappings.1.findIdx? (·.name = name) with
    | some i => (⟨mappings.1.modify i fun m => { m with pc }, by simpa using mappings.2⟩, .ok)
    | none =>
        if h : debuggerMaxSourceMappings ≤ mappings.1.length then (mappings, .breakpointLimit)
        else (⟨mappings.1 ++ [⟨mappingName name, pc⟩], by simpa using Nat.lt_of_not_le h⟩, .ok)

/-- `find_mapping`. -/
def findMapping (mappings : DebuggerMappings) (name : List Byte) : Option Nat :=
  (mappings.1.find? (·.name = name)).map (·.pc)

/-- `aivm_debugger_register_function`. -/
def registerFunction (d : Debugger) (name : List Byte) (pc : Nat) : Debugger × DebuggerReply :=
  let (functionMappings, status) := d.registerMapping d.functionMappings name pc
  ({ d with functionMappings }, status.reply)

/-- `aivm_debugger_register_node`. -/
def registerNode (d : Debugger) (nodeId : List Byte) (pc : Nat) : Debugger × DebuggerReply :=
  let (nodeMappings, status) := d.registerMapping d.nodeMappings nodeId pc
  ({ d with nodeMappings }, status.reply)

/-- A breakpoint at a mapped name. -/
def breakMapping (d : Debugger) (mappings : DebuggerMappings) (name : List Byte) : Debugger × DebuggerReply :=
  match findMapping mappings name with
  | none => (d, DebuggerStatus.invalid.reply)
  | some pc => d.breakPc pc

/-- `aivm_debugger_break_function`. -/
def breakFunction (d : Debugger) (name : List Byte) : Debugger × DebuggerReply := d.breakMapping d.functionMappings name

/-- `aivm_debugger_break_node`. -/
def breakNode (d : Debugger) (nodeId : List Byte) : Debugger × DebuggerReply := d.breakMapping d.nodeMappings nodeId

/-- `aivm_debugger_clear_breakpoints`. -/
def clearBreakpoints (d : Debugger) : Debugger × DebuggerReply :=
  ({ d with breakpoints := [], breakpoints_le := Nat.zero_le _ }, DebuggerStatus.ok.reply)

/-! ## Looking -/

/-- `aivm_debugger_pause`. -/
def pause (d : Debugger) : Debugger × DebuggerReply :=
  let d := d.syncState
  let d := if d.state = .halted ∨ d.state = .error then d else { d with state := .paused }
  d.answer d.stateStatus

/-- `aivm_debugger_inspect`; the kinds are the numbers up to that of the host operations. -/
def inspect (d : Debugger) (kind : Nat) : Debugger × DebuggerReply :=
  if 6 < kind then (d, DebuggerStatus.invalid.reply)
  else
    let d := d.syncState
    d.answer (if d.state = .error then .vm else .ok)

/-! ## Stepping

`next` is `aivm_step`. -/

section

variable (next : Vm → Option Vm)

/-- A step of the VM, and its count. -/
def vmStep (d : Debugger) : Option Debugger := do
  let vm ← next d.vm
  return { d with vm, executedStepCount := d.executedStepCount + 1 }

/-- `aivm_debugger_step`. -/
def step (d : Debugger) : Option (Debugger × DebuggerReply) :=
  let d := d.syncState
  if d.state = .halted ∨ d.state = .error then some (d.answer d.stateStatus)
  else do
    let d ← vmStep next { d with state := .running }
    let d := syncState { d with state := .paused }
    return d.answer d.stateStatus

/-- The number of call frames. -/
def depth (d : Debugger) : Nat := d.vm.callFrames.length

/-- The loop of `aivm_debugger_step_over` and `aivm_debugger_step_out`, with what is left of its limit. -/
def stepWhile (inside : Nat → Bool) : Nat → Debugger → Option (Debugger × DebuggerReply)
  | 0, d => some (d.answer (if inside d.depth then .stepLimit else .ok))
  | left + 1, d =>
      if inside d.depth then do
        let (d, reply) ← step next d
        if reply.status ≠ .ok then return (d, reply)
        else if d.hasBreakpoint d.vm.instructionPointer then return { d with state := .paused }.answer .ok
        else stepWhile inside left d
      else some (d.answer .ok)

/-- `aivm_debugger_step_over`. -/
def stepOver (d : Debugger) (maxSteps : Nat) : Option (Debugger × DebuggerReply) :=
  if maxSteps = 0 then some (d, DebuggerStatus.invalid.reply)
  else do
    let (d', reply) ← step next d
    if reply.status ≠ .ok ∨ d'.depth ≤ d.depth then return (d', reply)
    else stepWhile next (d.depth < ·) maxSteps d'

/-- `aivm_debugger_step_out`. -/
def stepOut (d : Debugger) (maxSteps : Nat) : Option (Debugger × DebuggerReply) :=
  if maxSteps = 0 then some (d, DebuggerStatus.invalid.reply)
  else if d.depth = 0 then d.stepOver next maxSteps
  else stepWhile next (d.depth ≤ ·) maxSteps d

/-- The loop of `aivm_debugger_continue`, with what is left of its limit. -/
def continueLoop : Nat → Debugger → Option (Debugger × DebuggerReply)
  | 0, d => some ({ d with state := .paused }.answer .stepLimit)
  | left + 1, d => do
      let d ← vmStep next d
      let d := d.syncState
      if d.state = .halted ∨ d.state = .error then return d.answer d.stateStatus
      else if d.hasBreakpoint d.vm.instructionPointer then return { d with state := .paused }.answer .ok
      else continueLoop left d

/-- `aivm_debugger_continue`. -/
def «continue» (d : Debugger) (maxSteps : Nat) : Option (Debugger × DebuggerReply) :=
  if maxSteps = 0 then some (d, DebuggerStatus.invalid.reply)
  else
    let d := d.syncState
    if d.state = .halted ∨ d.state = .error then some (d.answer d.stateStatus)
    else if d.hasBreakpoint d.vm.instructionPointer then some ({ d with state := .paused }.answer .ok)
    else continueLoop next maxSteps { d with state := .running }

end

end Debugger

/-! ## Commands -/

inductive DebuggerCommand where
  | breakPc (pc : Nat)
  | registerFunction (name : List Byte) (pc : Nat)
  | registerNode (nodeId : List Byte) (pc : Nat)
  | breakFunction (name : List Byte)
  | breakNode (nodeId : List Byte)
  | clearBreakpoints
  | setActiveHostOperationCount (count : Nat)
  | pause
  | inspect (kind : Nat)
  | step
  | stepOver (maxSteps : Nat)
  | stepOut (maxSteps : Nat)
  | «continue» (maxSteps : Nat)
deriving DecidableEq, Repr

/-- The limit of a command that steps; the others take no step but for `step`, which takes one. -/
def DebuggerCommand.maxSteps : DebuggerCommand → Nat
  | .stepOver maxSteps => maxSteps
  | .stepOut maxSteps => maxSteps
  | .continue maxSteps => maxSteps
  | _ => 0

/-- A command of the debugger. -/
def Debugger.run (next : Vm → Option Vm) (d : Debugger) : DebuggerCommand → Option (Debugger × DebuggerReply)
  | .breakPc pc => some (d.breakPc pc)
  | .registerFunction name pc => some (d.registerFunction name pc)
  | .registerNode nodeId pc => some (d.registerNode nodeId pc)
  | .breakFunction name => some (d.breakFunction name)
  | .breakNode nodeId => some (d.breakNode nodeId)
  | .clearBreakpoints => some d.clearBreakpoints
  | .setActiveHostOperationCount count =>
      some ({ d with activeHostOperationCount := count }, DebuggerStatus.ok.reply)
  | .pause => some d.pause
  | .inspect kind => some (d.inspect kind)
  | .step => d.step next
  | .stepOver maxSteps => d.stepOver next maxSteps
  | .stepOut maxSteps => d.stepOut next maxSteps
  | .continue maxSteps => d.continue next maxSteps

end Aivm
