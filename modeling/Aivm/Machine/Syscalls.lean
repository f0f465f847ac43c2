import Aivm.Machine.Bytes
import Aivm.Machine.Tasks

/-!
# System calls

`CALL_SYS` and `ASYNC_CALL_SYS` with `call_sys_with_arity` and `aivm_syscall_dispatch_checked_with_policy`. The search
for the target among the arguments is left out: it is only made for a target that is no string, which has been refused
before.
-/

namespace Aivm

open VmM

variable (env : Env)

/-! ## Targets -/

/-- `is_syscall_target_string`. -/
def isSyscallTargetString (text : List Byte) : Bool := (ascii "sys.").isPrefixOf text

/-- A character of the name behind `sys.`. -/
def isTargetChar (b : Byte) : Bool := 97 ≤ b ∧ b ≤ 122 ∨ 65 ≤ b ∧ b ≤ 90 ∨ 48 ≤ b ∧ b ≤ 57 ∨ b = 46 ∨ b = 95

/-- A syscall target that takes up all of a text. -/
def isWholeTarget (text : List Byte) : Bool :=
  isSyscallTargetString text ∧ text.drop 4 ≠ [] ∧ (text.drop 4).all isTargetChar

/-- `find_syscall_suffix_target`: where the last such target at the end of a text starts. -/
def findSyscallSuffixTarget (text : List Byte) : Option Nat :=
  ((List.range text.length).reverse).find? fun i => isWholeTarget (text.drop i)

/-- A call with the text of its target. -/
structure Syscall where
  target : List Byte
  args : List Value
deriving DecidableEq, Repr

/-- Pop values, the last one first. -/
def popArgs : Nat → List Value → Routine env (List Value)
  | 0, args => return args
  | count + 1, args => do
      let v ← Routine.pop
      popArgs count (v :: args)

/-- An error of a call. Every text starts with the letters of its code, which `text` leaves out. -/
def syscallFault (text : String) : Fault := ⟨.syscall, clip ("AIVMS" ++ text)⟩

theorem syscallFault_regular (text : String) : (syscallFault text).Regular :=
  (Fault.Regular.of_head (by simp) (c := 'A') (by simp) (by simp)).clip

/-- Fail with an error of a call. -/
def throwSyscall {α : Type} (text : String) : Routine env α :=
  Routine.throw (syscallFault text) (syscallFault_regular text)

def targetNotFound (target : List Byte) (argCount : Nat) : String :=
  s!"003: Syscall target was not found. rawTargetType=string rawTarget={detailText target} argCount={argCount}"

/-- Set a string aside if it lies in the arena. -/
def snapshot (p : StrPtr) : Routine env Unit := do
  let vm ← Routine.look
  if vm.pointerInStringArena p then
    Routine.claim "string snapshot"

/-- A target at the end of the only argument: the argument becomes `raw` followed by what comes before the target. An
argument in the arena is set aside only up to there, so that the target is read as empty. -/
def recoverTarget (p : StrPtr) (raw : List Byte) (args : List Value) : Routine env Syscall :=
  match args with
  | [v] =>
      match v.stringPtr with
      | none => throwSyscall env (targetNotFound raw 1)
      | some q => do
          let text ← readText env q
          match if (ascii "sys").isPrefixOf raw then findSyscallSuffixTarget text else none with
          | none => throwSyscall env (targetNotFound raw 1)
          | some i => do
              snapshot env p
              snapshot env q
              let vm ← Routine.look
              let rest := if vm.pointerInStringArena q then [] else text.drop i
              let merged ← Routine.allocString (raw ++ text.take i)
              let suffix ← Routine.copyString (.lit rest)
              let target ← readText env suffix
              return ⟨target, [.string merged]⟩
  | args => throwSyscall env (targetNotFound raw args.length)

/-- The operands of a call. -/
def popSyscall (argCount : Nat) : Routine env Syscall :=
  if maxSyscallArgs < argCount then Routine.throw ⟨.invalidProgram, "Invalid call argument count."⟩
  else do
    let args ← popArgs env argCount []
    let v ← Routine.pop
    let vm ← Routine.look
    match v.stringPtr with
    | none => Routine.throw ⟨.typeMismatch, s!"CALL_SYS target must be string. got={v.typeName} " ++
        s!"ip={vm.instructionPointer}"⟩
    | some p =>
        let target ← readText env p
        if isSyscallTargetString target then return ⟨target, args⟩
        else recoverTarget env p target args

/-! ## Dispatch -/

/-- The handler that `aivm_syscall_dispatch` finds for a target. -/
def findHandler (bindings : List SyscallBinding) (target : List Byte) : Option Nat :=
  bindings.findSome? fun b => if b.target = some target then b.handler else none

/-- The outcome of a dispatch: why no handler has been invoked, or its answer. -/
inductive Dispatch where
  | contract (status : ContractStatus)
  | capabilityDenied
  | unbound
  | answered (reply : HandlerReply) (expected : ValueType)

/-- `aivm_syscall_dispatch_checked_with_policy` up to the checks on the answer. -/
def dispatchChecked (vm : Vm) (s : Syscall) : Dispatch :=
  match contractValidate s.target s.args with
  | .error status => .contract status
  | .ok expected =>
      if ¬ policyAllows vm.syscallPolicy (contractCapability s.target) then .capabilityDenied
      else
        match findHandler vm.syscallBindings s.target with
        | none => .unbound
        | some handler => .answered (env.invokeHandler vm handler s.target s.args) expected

/-! ## Errors -/

/-- `syscall_contract_failure_detail`. -/
def syscallContractFailureDetail : ContractStatus → String
  | .unknownTarget => "004/AIVMC001: Syscall target was not found."
  | .argCount => "004/AIVMC002: Syscall argument count was invalid."
  | .argType => "004/AIVMC003: Syscall argument type was invalid."
  | .unknownId => "004/AIVMC004: Syscall contract ID was not found."
  | .ok => "004/AIVMC000: Syscall contract validation passed."

/-- `append_vm_value_preview`. -/
def valuePreview (ops : FloatOps) (h : Heap) : Value → String
  | .int i => s!"({i})"
  | .number x => "(" ++ detailText (ops.format x) ++ ")"
  | .bool b => if b then "(true)" else "(false)"
  | .string p => (h.cstr p).elim "" fun text => "(\"" ++ detailText (text.take 24) ++ "\")"
  | _ => ""

/-- `append_frame_local_previews`. -/
def frameLocalPreviews (ops : FloatOps) (vm : Vm) (frame : Option CallFrame) (label : String) : String :=
  match frame with
  | none => ""
  | some frame =>
      String.join (((vm.locals.drop frame.localsBase).take 3).zipIdx.map fun (v, i) =>
        s!" {label}{i}={v.typeName}" ++ valuePreview ops vm.toHeap v)

/-- `append_frame_return_previews`. -/
def frameReturnPreviews (vm : Vm) : String :=
  String.join ((vm.callFrames.reverse.take 3).zipIdx.map fun (frame, i) => s!" ret{i}={frame.returnInstructionPointer}")

/-- The types of the arguments that were passed and of those that a contract wants. -/
def argTypePreviews (ops : FloatOps) (vm : Vm) (c : SyscallContract) (args : List Value) : String :=
  String.join (c.argTypes.zipIdx.map fun (expected, i) =>
    match args[i]? with
    | some v => s!" arg{i}={v.typeName}->{expected.name}" ++ valuePreview ops vm.toHeap v
    | none => s!" arg{i}=missing->{expected.name}")

/-- `syscall_contract_failure_detail_with_args`. -/
def contractFailureText (ops : FloatOps) (vm : Vm) (s : Syscall) (status : ContractStatus) : String :=
  match status, contractFindByTarget s.target with
  | .unknownTarget, _ => s!"004/AIVMC001: Syscall target was not found. target={detailText s.target}"
  | .argType, some c =>
      s!"004/AIVMC003: Syscall argument type was invalid. target={detailText s.target}" ++
        argTypePreviews ops vm c s.args ++ frameReturnPreviews vm ++
        frameLocalPreviews ops vm vm.callFrames.reverse[0]? "local" ++
        frameLocalPreviews ops vm vm.callFrames.reverse[1]? "callerLocal" ++
        frameLocalPreviews ops vm vm.callFrames.reverse[2]? "caller2Local"
  | status, _ => syscallContractFailureDetail status

/-- `"%.72s"` of a target. -/
def shownTarget (target : List Byte) : String := detailText (target.take 72)

/-- Milliseconds with three decimals, from microseconds. -/
def elapsedText (elapsed : Nat) : String :=
  let rest := toString (elapsed % 1000)
  s!"{elapsed / 1000}." ++ String.ofList (List.replicate (3 - rest.length) '0') ++ rest

/-- The error of a handler's own status; its result is not looked at. -/
def handlerFailureText (vm : Vm) (s : Syscall) (status : SyscallStatus) : String :=
  match status with
  | .invalid => s!"001: Syscall dispatch input was invalid. target=\"{shownTarget s.target}\" " ++
      s!"bindingCount={vm.syscallBindings.length} argCount={s.args.length} hasBindings=true"
  | .nullResult => "002: Syscall dispatch result pointer was null."
  | .contract => syscallContractFailureDetail .ok
  | .returnType => "005: Syscall return type violated contract."
  | .resourceLimit => "007: Syscall resource limit exceeded."
  | .capabilityDenied => s!"008: Syscall capability is denied by runtime policy. " ++
      s!"target={shownTarget s.target} capability={(contractCapability s.target).name}"
  | .unbound | .notFound => s!"006: Syscall target is known but has no host binding. " ++
      s!"target={shownTarget s.target}"
  | .ok | .unknown => "999: Unknown syscall dispatch status."

/-- An answer that took too long. -/
def elapsedFailureText (vm : Vm) (s : Syscall) (reply : HandlerReply) : String :=
  s!"007: Syscall resource limit exceeded. target={shownTarget s.target} " ++
    s!"elapsed_ms={elapsedText reply.elapsed} limit_ms={vm.syscallElapsedLimitMs}"

/-! ## Calls -/

/-- `call_debug_task_reclaim_stats`. -/
def debugTaskReclaimStats : Routine env Value := do
  let vm ← Routine.look
  let k ← Routine.createNode (litPtr "DebugTaskReclaimStats")
    (.lit (ascii "debug_task_reclaim_stats_" ++ natDecimal (vm.nodes.length + 1)))
    [⟨litPtr "reclaimed", .int vm.counters.taskReclaimCount⟩,
      ⟨litPtr "skipPinned", .int vm.counters.taskReclaimSkipPinnedCount⟩,
      ⟨litPtr "exhausted", .int vm.counters.taskReclaimExhaustedCount⟩] (.array [])
  return .node k

/-- The call of `sys.debug.taskReclaimStats`, which the machine answers itself. -/
def callTaskReclaimStats (s : Syscall) : Routine env Value := do
  let vm ← Routine.look
  match contractValidate s.target s.args with
  | .error status => throwSyscall env (syscallContractFailureDetail status)
  | .ok _ =>
      if ¬ policyAllows vm.syscallPolicy .debug then
        throwSyscall env (handlerFailureText vm s .capabilityDenied)
      else debugTaskReclaimStats env

/-- `materialize_syscall_result`. -/
def materializeSyscallResult (v : Value) : Routine env Value :=
  match v with
  | .string .null => Routine.throw ⟨.typeMismatch, "Syscall string result must be non-null."⟩
  | .string p => do return .string (← Routine.copyString p)
  | .bytes d n =>
      if 0 < n ∧ d = .null then Routine.throw ⟨.typeMismatch, "Syscall bytes result must provide data."⟩
      else do
        let data ← readBytesView env d n
        let d ← Routine.allocBytes data
        return .bytes d n
  | v => return v

/-- A limit on the time that a handler takes. -/
def exceedsElapsedLimit (vm : Vm) (s : Syscall) (reply : HandlerReply) : Bool :=
  0 < vm.syscallElapsedLimitMs ∧ s.target ≠ ascii "sys.ui.waitFrame" ∧ vm.syscallElapsedLimitMs * 1000 < reply.elapsed

/-- The result of a call that a handler has answered. -/
def acceptReply (s : Syscall) (reply : HandlerReply) (expected : ValueType) : Routine env Value := do
  let vm ← Routine.look
  if exceedsElapsedLimit vm s reply then
    throwSyscall env (elapsedFailureText vm s reply)
  else if reply.status ≠ .ok then
    throwSyscall env (handlerFailureText vm s reply.status)
  else if reply.result.type ≠ expected then
    throwSyscall env (handlerFailureText vm s .returnType)
  else materializeSyscallResult env reply.result

/-- Refuse a call that no handler has been invoked for. -/
def refuseSyscall (text : Vm → String) : Routine env Value := do
  let vm ← Routine.look
  throwSyscall env (text vm)

/-- `aivm_syscall_dispatch_checked_with_policy` and what follows it. -/
def dispatchSyscall (s : Syscall) : VmM Value := do
  let vm ← get
  match dispatchChecked env vm s with
  | .contract status => (refuseSyscall env fun vm => contractFailureText env.floats vm s status).run
  | .capabilityDenied => (refuseSyscall env fun vm => handlerFailureText vm s .capabilityDenied).run
  | .unbound => (refuseSyscall env fun vm => handlerFailureText vm s .unbound).run
  | .answered reply expected =>
      modify (noteEvent (.handlerInvoked s.target))
      (acceptReply env s reply expected).run

/-- `call_sys_with_arity`. -/
def callSysWithArity (argCount : Nat) : VmM Value := do
  let s ← (popSyscall env argCount).run
  if s.target = ascii "sys.debug.taskReclaimStats" then
    (callTaskReclaimStats env s).run
  else
    dispatchSyscall env s

/-- `CALL_SYS`: after a call that failed, the instruction pointer stays where it is. -/
def callSys (operand : Int) : VmM Unit := do
  let argCount ← (Routine.operandToIndex operand : Routine env Nat).run
  match ← attempt (callSysWithArity env argCount) with
  | some v =>
      stackPush v
      advance
  | none => return

/-- `ASYNC_CALL_SYS`: the call is made at once and its result becomes a completed task. -/
def asyncCallSys (operand : Int) : VmM Unit := do
  let argCount ← (Routine.operandToIndex operand : Routine env Nat).run
  match ← attempt (callSysWithArity env argCount) with
  | some v =>
      pushCompletedTask v
      advance
  | none => return

end Aivm
