import Aivm.Machine.Scalars

/-!
# Control instructions

Jumps, calls and returns of `aivm_step`, with the checks of a call target. The argument count of a function is the
number of `STORE_LOCAL` instructions it starts with.
-/

namespace Aivm

open VmM

variable (env : Env)

/-- `error_detail_storage` holds 4095 bytes of a text. -/
def clip (text : String) : String := String.ofList (text.toList.take 4095)

theorem Fault.Regular.clip {error text} (h : Fault.Regular ⟨error, text⟩) : Fault.Regular ⟨error, Aivm.clip text⟩ := by
  refine ⟨h.1, fun diagnostic hm hp => h.2 diagnostic hm (hp.trans ?_)⟩
  simpa [Aivm.clip] using List.take_prefix 4095 text.toList

def instructionCount (vm : Vm) : Nat := vm.program.instructions.length

/-- The instruction after this one is next. -/
def advance : VmM Unit := modify fun vm => { vm with instructionPointer := vm.instructionPointer + 1 }

/-- The instruction at `target` is next. -/
def goTo (target : Nat) : VmM Unit := modify fun vm => { vm with instructionPointer := target }

/-- `aivm_halt`. -/
def halt (vm : Vm) : Vm := { vm with instructionPointer := instructionCount vm, status := .halted }

/-! ## Jumps -/

/-- A place in the program, or its end. -/
def jumpTarget (target : Nat) : Routine env Unit := do
  let vm ← Routine.look
  if instructionCount vm < target then
    Routine.throw ⟨.invalidProgram, "Jump target out of range."⟩

/-- `JUMP`. -/
def jump (operand : Int) : VmM Unit := do
  let target ← (Routine.operandToIndex operand : Routine env Nat).run
  (jumpTarget env target).run
  goTo target

/-- The condition of a conditional jump. -/
def popCondition : Routine env Bool := do
  let v ← Routine.pop
  match v with
  | .bool b => return b
  | _ => Routine.throw ⟨.typeMismatch, "JUMP_IF_FALSE requires bool."⟩

/-- `JUMP_IF_FALSE`. -/
def jumpIfFalse (operand : Int) : VmM Unit := do
  let target ← (Routine.operandToIndex operand : Routine env Nat).run
  let condition ← (popCondition env).run
  if condition then
    advance
  else
    (jumpTarget env target).run
    goTo target

/-! ## Call targets -/

/-- `infer_call_arg_count`. -/
def inferCallArgCount (program : Program) (target : Nat) : Nat :=
  ((program.instructions.drop target).takeWhile fun i => i.opcode = .storeLocal).length

/-- The loop of `validate_call_target_layout`; `seen` holds the locals of the arguments checked so far. -/
def validateLayoutFrom (program : Program) (target argCount : Nat) : Nat → List Nat → Routine env Unit
  | 0, _ => return
  | remaining + 1, seen =>
      match program.instructions[target + seen.length]? with
      | none => Routine.throw ⟨.invalidProgram, "Call target layout exceeded instruction range."⟩
      | some i =>
          if i.opcode ≠ .storeLocal then
            Routine.throw ⟨.invalidProgram, s!"Call target layout invalid. target={target} arg={seen.length} " ++
              s!"op={i.opcode.ctorIdx} expected=STORE_LOCAL"⟩
          else do
            let index ← Routine.operandToIndex i.operandInt
            if index ∈ seen then
              Routine.throw ⟨.invalidProgram, s!"Call target local layout invalid. target={target} " ++
                s!"arg={seen.length} duplicateLocal={index} argCount={argCount}"⟩
            validateLayoutFrom program target argCount remaining (seen ++ [index])

/-- `validate_call_target_layout`. -/
def validateCallTargetLayout (program : Program) (target argCount : Nat) : Routine env Unit :=
  if 64 < argCount then
    Routine.throw ⟨.invalidProgram, s!"Call target layout invalid. target={target} argCount={argCount} " ++
      "exceeds checked layout window"⟩
  else validateLayoutFrom env program target argCount argCount []

/-- The recent history, as `set_vm_error_call_arg_depth` shows it. -/
def callArgDepthHistory (vm : Vm) : String :=
  let calls := vm.recentCalls.zipIdx.map fun (e, i) =>
    s!" call{i}=\x7bip={e.instructionPointer},target={e.target},argCount={e.argCount},stackBefore={e.stackCount}\x7d"
  let returns := vm.recentReturns.zipIdx.map fun (e, i) =>
    s!" return{i}=\x7bip={e.instructionPointer},stackAfter={e.stackCount},preRestore={e.preRestoreStackCount}," ++
      s!"frameBase={e.frameBase},hasReturn={e.hasReturnValue.toNat}\x7d"
  let opcodes := vm.recentOpcodes.zipIdx.map fun (e, i) =>
    s!" op{i}=\x7bip={e.instructionPointer},opcode={e.opcode.ctorIdx},stack={e.stackCount}\x7d"
  String.join (calls ++ returns ++ opcodes)

/-- The number of arguments of a call target that has been checked. -/
def checkCallTarget (target : Nat) : Routine env Nat := do
  let vm ← Routine.look
  let argCount := inferCallArgCount vm.program target
  if vm.stack.length < argCount then
    Routine.throw ⟨.invalidProgram, clip ("Call argument count exceeds stack depth. " ++
        (s!"target={target} argCount={argCount} stackCount={vm.stack.length} " ++
          s!"frameCount={vm.callFrames.length} pc={vm.instructionPointer}" ++ callArgDepthHistory vm))⟩
      (Fault.Regular.of_head (by simp) (c := 'C') (by simp) (by simp)).clip
  validateCallTargetLayout env vm.program target argCount
  return argCount

/-! ## Calls -/

/-- `aivm_vm_record_recent_call`. -/
def recordRecentCall (target argCount : Nat) (vm : Vm) : Vm :=
  { vm with recentCalls := (⟨vm.instructionPointer, target, argCount, vm.stack.length⟩ :: vm.recentCalls).take 4 }

/-- The arguments of a call do not reach below the base of the calling frame. -/
def checkArgumentFrame (target argCount : Nat) : Routine env Unit := do
  let vm ← Routine.look
  match vm.callFrames.getLast? with
  | none => return
  | some frame =>
      if vm.stack.length - argCount < frame.frameBase then
        Routine.throw ⟨.invalidProgram, s!"Call argument frame crosses caller frame base. target={target} " ++
          s!"argCount={argCount} argBase={vm.stack.length - argCount} callerFrameBase={frame.frameBase} " ++
          s!"stackCount={vm.stack.length} pc={vm.instructionPointer}"⟩

/-- The instruction after a call is a return of the current frame. -/
def isTailCall (vm : Vm) : Bool :=
  match vm.program.instructions[vm.instructionPointer + 1]? with
  | none => false
  | some i => vm.callFrames ≠ [] ∧ (i.opcode = .return_ ∨ i.opcode = .ret)

/-- A tail call: the arguments take the place of the current frame's values. -/
def reuseFrame (argCount : Nat) (frame : CallFrame) (vm : Vm) : Vm :=
  dropLocals frame.localsBase
    { vm with stack := vm.stack.take frame.frameBase ++ vm.stack.drop (vm.stack.length - argCount) }

/-- `CALL`. A frame base above the arguments of a tail call has been refused before. -/
def call (operand : Int) : VmM Unit := do
  let target ← (Routine.operandToIndex operand : Routine env Nat).run
  let vm ← get
  if instructionCount vm ≤ target then
    throw ⟨.invalidProgram, "Call target out of range."⟩
  else
    let argCount ← (checkCallTarget env target).run
    modify (recordRecentCall target argCount)
    (checkArgumentFrame env target argCount).run
    let vm ← get
    match isTailCall vm, vm.callFrames.getLast? with
    | true, some frame =>
        modify (reuseFrame argCount frame)
        goTo target
    | _, _ =>
        framePush (vm.instructionPointer + 1) (vm.stack.length - argCount)
        goTo target

/-! ## Returns -/

/-- `aivm_vm_record_recent_return`. -/
def recordRecentReturn (frame : CallFrame) (preRestoreStackCount : Nat) (hasReturnValue : Bool) (vm : Vm) : Vm :=
  { vm with recentReturns :=
      (⟨frame.returnInstructionPointer, vm.stack.length, preRestoreStackCount, frame.frameBase, hasReturnValue⟩ ::
        vm.recentReturns).take 4 }

/-- Collect on the way back from a call, where the stores are nearly full. -/
def returnSafePoint : VmM Unit := do
  let vm ← get
  let collectBytes := shouldAttemptBytesReturnSafePoint vm
  if shouldAttemptReturnSafePoint vm then
    let (grown, vm) := tryGrowPressureNodeArenas env vm
    modify fun _ => vm
    if !grown || collectBytes then
      collectSafePointInternal env (!grown) collectBytes
  else if collectBytes then
    collectSafePointInternal env false true

/-- Leave a frame with the value on top of it, if there is one. -/
def restoreFrame (frame : CallFrame) : VmM Unit := do
  let vm ← get
  if instructionCount vm < frame.returnInstructionPointer then
    throw ⟨.invalidProgram, "Return instruction pointer out of range."⟩
  else if vm.stack.length < frame.frameBase then
    throw ⟨.invalidProgram, "Call frame base exceeds stack depth."⟩
  else
    let result := if frame.frameBase < vm.stack.length then vm.stack.getLast? else none
    validateVmReturnRestore frame vm.stack.length
    modify fun vm => dropLocals frame.localsBase { vm with stack := vm.stack.take frame.frameBase }
    match result with
    | some v => stackPush v
    | none => Pure.pure ()
    modify (recordRecentReturn frame vm.stack.length result.isSome)

/-- `RET` and `RETURN`. -/
def ret : VmM Unit := do
  let vm ← get
  if vm.callFrames = [] then
    modify halt
  else
    let frame ← framePop
    restoreFrame frame
    returnSafePoint env
    goTo frame.returnInstructionPointer

end Aivm
