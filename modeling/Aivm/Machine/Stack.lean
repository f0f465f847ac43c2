import Aivm.Strings.Arena

/-!
# Stack, call frames and locals

`aivm_vm_stack.c` and the checks of `aivm_vm.c` that it calls. The current call frame is the last one. Lowering the
number of locals leaves the slots above as they are, and a later store behind them brings them back.
-/

namespace Aivm

/-! ## Limits -/

/-- The loops `while (needed > limit && limit < capacity)` of the three stores. -/
def growLimit (step capacity needed : Nat) : Nat → Nat → Nat
  | 0, limit => limit
  | fuel + 1, limit =>
      if limit < needed ∧ limit < capacity then
        growLimit step capacity needed fuel (arenaGrowLimit limit step capacity)
      else limit

/-- The limit after making room for `needed` entries. -/
def ensureLimit (step capacity needed limit : Nat) : Nat := growLimit step capacity needed (capacity - limit) limit

def ensureStackCapacity (needed : Nat) (vm : Vm) : Vm :=
  { vm with stackLimit := ensureLimit stackGrowthStep stackCapacity needed vm.stackLimit }

def ensureCallFrameCapacity (needed : Nat) (vm : Vm) : Vm :=
  { vm with callFrameLimit := ensureLimit callFrameGrowthStep callFrameCapacity needed vm.callFrameLimit }

def ensureLocalsCapacity (needed : Nat) (vm : Vm) : Vm :=
  { vm with localsLimit := ensureLimit localsGrowthStep localsCapacity needed vm.localsLimit }

/-! ## Checks -/

/-- The counts exceed no limit. -/
def withinLimits (vm : Vm) : Prop :=
  vm.stack.length ≤ vm.stackLimit ∧ vm.callFrames.length ≤ vm.callFrameLimit ∧ vm.locals.length ≤ vm.localsLimit

instance (vm : Vm) : Decidable (withinLimits vm) := by
  unfold withinLimits
  infer_instance

def stateInvariantFailed (opName : String) (vm : Vm) : Fault :=
  ⟨.invalidProgram, s!"VM state invariant failed. op={opName} stackCount={vm.stack.length} " ++
    s!"stackLimit={vm.stackLimit} frameCount={vm.callFrames.length} frameLimit={vm.callFrameLimit} " ++
    s!"localsCount={vm.locals.length} localsLimit={vm.localsLimit}"⟩

def frameInvariantFailed (opName : String) (frame : CallFrame) (vm : Vm) : Fault :=
  let call := vm.recentCalls.headD ⟨0, 0, 0, 0⟩
  let return_ := vm.recentReturns.headD ⟨0, 0, 0, 0, false⟩
  let op := vm.recentOpcodes.headD ⟨0, .nop, 0⟩
  ⟨.invalidProgram, s!"VM frame invariant failed. op={opName} frameBase={frame.frameBase} " ++
    s!"localsBase={frame.localsBase} returnIp={frame.returnInstructionPointer} " ++
    s!"stackCount={vm.stack.length} localsCount={vm.locals.length} frameCount={vm.callFrames.length} " ++
    s!"pc={vm.instructionPointer} call0Ip={call.instructionPointer} call0Target={call.target} " ++
    s!"call0ArgCount={call.argCount} call0Stack={call.stackCount} return0Ip={return_.instructionPointer} " ++
    s!"return0Stack={return_.stackCount} return0PreRestore={return_.preRestoreStackCount} " ++
    s!"return0FrameBase={return_.frameBase} op0Ip={op.instructionPointer} op0Opcode={op.opcode.ctorIdx} " ++
    s!"op0Stack={op.stackCount}"⟩

/-- A frame whose bases lie within the stack and the locals. -/
def CallFrame.fits (frame : CallFrame) (vm : Vm) : Prop :=
  frame.frameBase ≤ vm.stack.length ∧ frame.localsBase ≤ vm.locals.length

instance (frame : CallFrame) (vm : Vm) : Decidable (frame.fits vm) := by
  unfold CallFrame.fits
  infer_instance

def localsInvariantFailed (opName : String) (activeBase : Nat) (vm : Vm) : Fault :=
  ⟨.invalidProgram, s!"VM locals invariant failed. op={opName} activeBase={activeBase} " ++
    s!"localsCount={vm.locals.length} frameCount={vm.callFrames.length}"⟩

/-- Where the locals of the current frame start. -/
def localsBase (vm : Vm) : Nat :=
  match vm.callFrames.getLast? with
  | none => 0
  | some frame => frame.localsBase

/-- `aivm_vm_validate_call_local_state`. -/
def validateCallLocalState (opName : String) : VmM Unit := fun vm =>
  if ¬ withinLimits vm then .fail (VmM.setVmError (stateInvariantFailed opName vm) vm)
  else
    match vm.callFrames.getLast? with
    | some frame =>
        if ¬ frame.fits vm then .fail (VmM.setVmError (frameInvariantFailed opName frame vm) vm)
        else if vm.locals.length < frame.localsBase then
          .fail (VmM.setVmError (localsInvariantFailed opName frame.localsBase vm) vm)
        else .ok () vm
    | none => .ok () vm

/-- `aivm_vm_validate_frame_record`. -/
def validateFrameRecord (frame : CallFrame) (opName : String) : VmM Unit := fun vm =>
  if frame.fits vm then .ok () vm
  else
    .fail (VmM.setVmError ⟨.invalidProgram, s!"VM frame record invalid. op={opName} " ++
      s!"frameBase={frame.frameBase} localsBase={frame.localsBase} stackCount={vm.stack.length} " ++
      s!"localsCount={vm.locals.length} frameCount={vm.callFrames.length}"⟩ vm)

/-- `validate_vm_return_restore`: at most one value lies above the base of the frame that is left. -/
def validateVmReturnRestore (frame : CallFrame) (preRestoreStackCount : Nat) : VmM Unit := fun vm =>
  if ¬ withinLimits vm then .fail (VmM.setVmError (stateInvariantFailed "return-restore" vm) vm)
  else if frame.frameBase + 1 < preRestoreStackCount then
    .fail (VmM.setVmError ⟨.invalidProgram,
      s!"Return restore invalid. extraStackValues={preRestoreStackCount - (frame.frameBase + 1)} " ++
      s!"frameBase={frame.frameBase} stackCount={preRestoreStackCount} localsBase={frame.localsBase} " ++
      s!"frameCount={vm.callFrames.length} pc={vm.instructionPointer}"⟩ vm)
  else .ok () vm

/-! ## The evaluation stack -/

def stackPush (v : Value) : VmM Unit := fun vm =>
  let vm' := ensureStackCapacity (vm.stack.length + 1) vm
  if vm.stack.length + 1 ≤ vm'.stackLimit then .ok () { vm' with stack := vm.stack ++ [v] }
  else .fail (VmM.setVmError ⟨.stackOverflow, "Stack overflow."⟩ vm')

def stackPop : VmM Value := fun vm =>
  match vm.stack.getLast? with
  | none => .fail (VmM.setVmError ⟨.stackUnderflow, "Stack underflow."⟩ vm)
  | some v => .ok v { vm with stack := vm.stack.dropLast }

/-! ## Call frames -/

def framePush (returnInstructionPointer frameBase : Nat) : VmM Unit := do
  validateCallLocalState "frame-push"
  let vm ← VmM.get
  if vm.stack.length < frameBase then
    VmM.throw ⟨.invalidProgram, "Call frame base exceeds stack depth."⟩
  VmM.modify (ensureCallFrameCapacity (vm.callFrames.length + 1))
  let vm ← VmM.get
  if vm.callFrameLimit < vm.callFrames.length + 1 then
    VmM.throw ⟨.frameOverflow, "Call-frame overflow."⟩
  VmM.modify fun vm =>
    { vm with callFrames := vm.callFrames ++ [⟨returnInstructionPointer, frameBase, vm.locals.length⟩] }

def framePop : VmM CallFrame := do
  validateCallLocalState "frame-pop"
  let vm ← VmM.get
  match vm.callFrames.getLast? with
  | none => VmM.throw ⟨.frameUnderflow, "Call-frame underflow."⟩
  | some frame =>
      VmM.modify fun vm => { vm with callFrames := vm.callFrames.dropLast }
      validateFrameRecord frame "frame-pop"
      return frame

/-! ## Locals -/

def localOutOfRange (opName : String) (index base : Nat) (vm : Vm) : Fault :=
  ⟨.localOutOfRange, s!"Invalid local slot. op={opName} index={index} base={base} " ++
    s!"localsCount={vm.locals.length} frameCount={vm.callFrames.length} pc={vm.instructionPointer}"⟩

/-- The first slots above the locals, as they were left. -/
def staleSlots (vm : Vm) (count : Nat) : List Value := (List.range count).map fun i => vm.staleLocals.getD i .void

/-- Write a slot; slots skipped on the way become locals again. -/
def writeLocal (index : Nat) (v : Value) (vm : Vm) : Vm :=
  if index < vm.locals.length then { vm with locals := vm.locals.set index v }
  else
    { vm with
      locals := vm.locals ++ staleSlots vm (index - vm.locals.length) ++ [v]
      staleLocals := vm.staleLocals.drop (index - vm.locals.length + 1) }

/-- Lower the number of locals. -/
def dropLocals (count : Nat) (vm : Vm) : Vm :=
  { vm with locals := vm.locals.take count, staleLocals := vm.locals.drop count ++ vm.staleLocals }

def localSet (index : Nat) (v : Value) : VmM Unit := do
  validateCallLocalState "local-set"
  let vm ← VmM.get
  let base := localsBase vm
  if localsCapacity ≤ base ∨ localsCapacity - base ≤ index then
    VmM.throw (localOutOfRange "store" index base vm)
  VmM.modify (ensureLocalsCapacity (base + index + 1))
  let vm ← VmM.get
  if vm.localsLimit < base + index + 1 then
    VmM.throw (localOutOfRange "store" index base vm)
  VmM.modify (writeLocal (base + index) v)

/-- `aivm_local_get`. -/
def localGet (vm : Vm) (index : Nat) : Option Value :=
  if ¬ withinLimits vm then none
  else if ∃ frame ∈ vm.callFrames.getLast?, ¬ frame.fits vm then none
  else if localsCapacity ≤ localsBase vm ∨ localsCapacity - localsBase vm ≤ index then none
  else vm.locals[localsBase vm + index]?

end Aivm
