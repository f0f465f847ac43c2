import Aivm.Machine.Builders
import Aivm.Machine.Par
import Aivm.Machine.Syscalls

/-!
# Steps and runs

`aivm_step` and the loop of `aivm_run`. A step that waits for a worker runs the worker's VM to its end, which takes
steps of its own: the fuel of a step bounds the instructions of such a run and the depth of runs within it.
-/

namespace Aivm

open VmM

variable (env : Env) (nested : Vm → Option Vm)

/-- An ordinary instruction. -/
def ordinary (r : Routine env Unit) : VmM Unit := do
  r.run
  advance

/-- An error that leaves the instruction pointer where it is. -/
def stopHere (f : Fault) : VmM Unit := modify (setVmError f)

/-- The `switch` of `aivm_step`. -/
def execute (i : Instruction) : VmM Unit :=
  match i.opcode with
  | .nop => advance
  | .halt => modify halt
  | .stub => stopHere ⟨.invalidOpcode, "STUB opcode is invalid at runtime."⟩
  | .pushInt => ordinary env (pushIntOp env i.operandInt)
  | .pop => ordinary env (popOp env)
  | .storeLocal => ordinary env (storeLocalOp env i.operandInt)
  | .loadLocal => ordinary env (loadLocalOp env i.operandInt)
  | .addInt => ordinary env (addInt env)
  | .jump => jump env i.operandInt
  | .jumpIfFalse => jumpIfFalse env i.operandInt
  | .pushBool => ordinary env (pushBoolOp env i.operandInt)
  | .call => call env i.operandInt
  | .ret => ret env
  | .return_ => ret env
  | .eqInt => ordinary env (eqInt env)
  | .eq => ordinary env (eqOp env)
  | .const => ordinary env (constOp env i.operandInt)
  | .strConcat => ordinary env (strConcat env)
  | .toString => ordinary env (toStringOp env)
  | .strEscape => ordinary env (strEscape env)
  | .strSubstring => ordinary env (strSubstring env)
  | .strRemove => ordinary env (strRemove env)
  | .callSys => callSys env i.operandInt
  | .asyncCall => asyncCall env i.operandInt
  | .asyncCallSys => asyncCallSys env i.operandInt
  | .await => await env nested
  | .parBegin => parBegin env i.operandInt
  | .parFork => parFork
  | .parJoin => parJoin env nested i.operandInt
  | .parCancel => advance
  | .strUtf8ByteCount => ordinary env (strUtf8ByteCount env)
  | .nodeKind => ordinary env (nodeKind env)
  | .nodeId => ordinary env (nodeId env)
  | .attrCount => ordinary env (attrCount env)
  | .attrKey => ordinary env (attrKey env)
  | .attrValueKind => ordinary env (attrValueKind env)
  | .attrValueString => ordinary env (attrValueString env)
  | .attrValueInt => ordinary env (attrValueInt env)
  | .attrValueBool => ordinary env (attrValueBool env)
  | .childCount => ordinary env (childCount env)
  | .childAt => ordinary env (childAt env)
  | .makeBlock => ordinary env (makeBlock env)
  | .appendChild => ordinary env (appendChild env)
  | .makeErr => ordinary env (makeErr env)
  | .makeLitString => ordinary env (makeLitString env)
  | .makeLitInt => ordinary env (makeLitInt env)
  | .makeLitBool => ordinary env (makeLitBool env)
  | .makeNode => ordinary env (makeNode env)
  | .makeFieldString => ordinary env (makeFieldString env)
  | .makeMap => ordinary env (makeMap env)
  | .makeNodeEmpty => ordinary env (makeNodeEmpty env)
  | .appendAttr => ordinary env (appendAttr env)
  | .strFind => ordinary env (strFind env)
  | .strFromCodepoint => ordinary env (strFromCodepoint env)
  | .strDecodeUnicodeHex4 => ordinary env (strDecodeUnicodeHex4 env)
  | .strDecodeUnicodeSurrogatePairHex4 => ordinary env (strDecodeUnicodeSurrogatePairHex4 env)
  | .bytesLength => ordinary env (bytesLength env)
  | .bytesAt => ordinary env (bytesAtOp env)
  | .bytesSlice => ordinary env (bytesSlice env)
  | .bytesConcat => ordinary env (bytesConcat env)
  | .bytesFromUtf8String => ordinary env (bytesFromUtf8String env)
  | .bytesToUtf8String => ordinary env (bytesToUtf8String env)
  | .bytesFromBase64 => ordinary env (bytesFromBase64Op env)
  | .bytesToBase64 => ordinary env (bytesToBase64Op env)
  | .makePair => ordinary env (makePair env)
  | .pairFirst => ordinary env (pairFirst env)
  | .pairSecond => ordinary env (pairSecond env)
  | .subNum => ordinary env (subNum env)
  | .mulNum => ordinary env (mulNum env)
  | .divNum => ordinary env (divNum env)
  | .modNum => ordinary env (modNum env)
  | .powNum => ordinary env (powNum env)
  | .ltNum => ordinary env (ltNum env)
  | .bytesFromByte => ordinary env (bytesFromByte env)
  | .bytesU32Le => ordinary env (bytesU32Le env)
  | .bytesI64Le => ordinary env (bytesI64Le env)
  | .strScalarLength => ordinary env (strScalarLength env)
  | .valueKind => ordinary env (valueKind env)
  | .nodeBuilderNew => ordinary env (nodeBuilderNew env)
  | .nodeBuilderAppendChild => ordinary env (nodeBuilderAppendChild env)
  | .nodeBuilderAppendAttr => ordinary env (nodeBuilderAppendAttr env)
  | .nodeBuilderFinish => ordinary env (nodeBuilderFinish env)
  | .mapBuilderNew => ordinary env (mapBuilderNew env)
  | .mapBuilderPutStringInt => ordinary env (mapBuilderPutStringInt env)
  | .mapBuilderFinish => ordinary env (mapBuilderFinish env)
  | .mapCount => ordinary env (mapCount env)
  | .mapHasString => ordinary env (mapHasString env)
  | .mapGetStringIntOr => ordinary env (mapGetStringIntOr env)
  | .workerRef => workerRef env i.operandInt
  | .workerRun => workerRun env
  | .taskCancel => taskCancel env
  | .workerRunAll => workerRunAll env i.operandInt
  | .workerTaskAt => workerTaskAt

/-! ## One step -/

/-- A VM that has nothing more to do. -/
def Vm.stopped (vm : Vm) : Bool := vm.status = .error ∨ vm.status = .halted

/-- The start of a step: the error text of the last one is gone and the instruction is recorded. -/
def beginStep (i : Instruction) (vm : Vm) : Vm :=
  { vm with
    status := .running
    errorDetail := ""
    recentOpcodes := (⟨vm.instructionPointer, i.opcode, vm.stack.length⟩ :: vm.recentOpcodes).take 24
    hostClock := vm.hostClock + 1 }

/-- The end of a step: a VM behind its last instruction has halted. -/
def settle (vm : Vm) : Vm :=
  if vm.status = .running ∧ instructionCount vm ≤ vm.instructionPointer then { vm with status := .halted } else vm

/-- A failed instruction moves the instruction pointer behind the program. -/
def stopStep (vm : Vm) : Vm := { vm with instructionPointer := instructionCount vm }

/-- `aivm_step`; undefined where the source has no defined behaviour or waits for a worker that does not end. -/
def stepWith (vm : Vm) : Option Vm :=
  if vm.stopped then some vm
  else
    match vm.program.instructions[vm.instructionPointer]? with
    | none => some { vm with status := .halted }
    | some i =>
        match execute env nested i (beginStep i vm) with
        | .ok _ vm => some (settle vm)
        | .fail vm => some (settle (stopStep vm))
        | .undefined => none

/-! ## Runs -/

/-- The loop of `aivm_run`, which also runs the VM of a worker. -/
def finish : Nat → Vm → Option Vm
  | 0, _ => none
  | fuel + 1, vm =>
      if vm.stopped ∨ instructionCount vm ≤ vm.instructionPointer then some vm
      else
        match stepWith env (finish fuel) vm with
        | none => none
        | some vm => finish fuel vm

/-- `aivm_step` with fuel for the workers it waits for. -/
def step (fuel : Nat) (vm : Vm) : Option Vm := stepWith env (finish env fuel) vm

/-!
## Machines in use

The states a VM can be in: it is made by the host or for a worker, it takes steps, it is reset, and its host sets its
profile and its policy.
-/

/-- A state that a VM can be in. -/
inductive Arises (env : Env) : Vm → Prop where
  | made {program bindings argv profile hostClock vm} :
      initVm env program bindings argv profile hostClock = some vm → Arises env vm
  | worker {p rt id payload vm} : workerVm env p rt id payload = some vm → Arises env vm
  | subroutine {owner worker target args vm} : subroutineVm env owner = some worker →
      enterSubroutine env owner target args worker = .ok () vm → Arises env vm
  | stepped {vm fuel vm'} : Arises env vm → step env fuel vm = some vm' → Arises env vm'
  | reset {vm vm'} : Arises env vm → resetState env vm = some vm' → Arises env vm'
  | profiled {vm} (profile : RuntimeProfile) : Arises env vm → Arises env (setRuntimeProfile profile vm)
  | permitted {vm} (policy : UInt64) : Arises env vm → Arises env { vm with syscallPolicy := policy }

end Aivm
