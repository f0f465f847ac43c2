import Aivm.Machine.Control
import Aivm.Machine.Reset
import Aivm.Program.Theorems

/-!
# Workers of the catalog

`aivm_worker_capabilities.c`, `aivm_worker_program.c`, `aivm_worker_runtime.c` and `aivm_worker_invocation.c`. A worker
that a thread runs between its submission and the await that wants its result is run at that await: nothing else can
see it. `nested` runs a VM until it stops.
-/

namespace Aivm

open VmM

/-! ## Capabilities -/

/-- The capabilities of a catalog entry and the syscall capabilities they stand for. -/
def workerCapabilities : List (UInt64 × SyscallCapability) :=
  [(2, .process), (4, .network), (8, .process), (16, .time), (32, .crypto), (64, .ui), (128, .debug), (256, .remote),
    (512, .console)]

/-- `aivm_worker_capability_syscall_mask`. -/
def workerCapabilitySyscallMask (workerMask : UInt64) : UInt64 :=
  workerCapabilities.foldl (fun mask c => mask ||| if workerMask &&& c.1 ≠ 0 then c.2.mask else 0) 0

/-- `aivm_worker_capabilities_supported`. -/
def workerCapabilitiesSupported (workerMask : UInt64) : Bool :=
  workerMask &&& ~~~workerCapabilities.foldl (fun mask c => mask ||| c.1) 0 = 0

/-- The mask that a catalog entry requires of its owner's policy. -/
def WorkerCatalogEntry.requiredMask (entry : WorkerCatalogEntry) : UInt64 :=
  workerCapabilitySyscallMask (UInt64.ofNat entry.requiredCapabilities)

/-! ## Programs -/

inductive WorkerRuntimeStatus where
  | argument
  | limit
  | capability
  | memory
  | program
deriving DecidableEq, Repr

/-- The program of a record. -/
def ProgramRecord.toProgram (p : ProgramRecord) : Program := ⟨p.instructions, p.constants, p.workerCatalog⟩

/-- A worker takes one argument: its function starts with exactly one store. -/
def hasWorkerSignature (program : Program) (target : Nat) : Bool :=
  match program.instructions[target]?, program.instructions[target + 1]? with
  | some i, some j => i.opcode = .storeLocal ∧ j.opcode ≠ .storeLocal
  | _, _ => false

/-- `aivm_worker_program_prepare`. -/
def workerProgramPrepare (env : Env) (vm : Vm) (entry : WorkerCatalogEntry) (parentPolicy : UInt64) :
    Except WorkerRuntimeStatus WorkerProgram :=
  if ¬ workerCapabilitiesSupported (UInt64.ofNat entry.requiredCapabilities) then .error .capability
  else if entry.requiredMask &&& ~~~parentPolicy ≠ 0 then .error .capability
  else if ¬ env.allocates vm "worker program" then .error .memory
  else
    match loadProgram env.loader entry.artifact ⟨[], false, [], false, 0, 0, 0, [], 0, 0, []⟩ with
    | .ok loaded =>
        if hasWorkerSignature loaded.toProgram entry.functionTarget then
          .ok ⟨loaded.toProgram, entry.functionTarget, entry.requiredMask⟩
        else .error .program
    | _ => .error .program

/-! ## The runtime -/

namespace WorkerRuntime

variable (env : Env) (rt : WorkerRuntime)

/-- `aivm_worker_runtime_create`. -/
def create (vm : Vm) : Option WorkerRuntime :=
  if ¬ env.allocates vm "worker runtime" ∨ ¬ env.startsScheduler vm then none
  else
    some { parentPolicy := vm.syscallPolicy, syscallBindings := vm.syscallBindings, profile := vm.runtimeProfile
           outstandingLimit := taskCapacity, programs := vm.program.workerCatalog.map fun _ => none, tasks := [] }

/-- `prepare_program`: an artifact is loaded once. -/
def prepareProgram (vm : Vm) (index : Nat) : Except WorkerRuntimeStatus (WorkerRuntime × WorkerProgram) :=
  match rt.programs[index]? with
  | none => .error .argument
  | some (some p) => .ok (rt, p)
  | some none =>
      match vm.program.workerCatalog[index]? with
      | none => .error .argument
      | some entry =>
          match workerProgramPrepare env vm entry rt.parentPolicy with
          | .error e => .error e
          | .ok p => .ok ({ rt with programs := rt.programs.set index (some p) }, p)

/-- `aivm_worker_runtime_submit`: the runtime afterwards and why the submission was refused, if it was. The scheduler
refuses only what this table refuses already. -/
def submit (vm : Vm) (index id : Nat) (payload : Option (List Byte)) : WorkerRuntime × Option WorkerRuntimeStatus :=
  match payload with
  | none => (rt, some .argument)
  | some payload =>
      if rt.programs.length ≤ index then (rt, some .argument)
      else if (runtimeProfileLimits rt.profile).bytesArenaCapacity < payload.length then (rt, some .limit)
      else if rt.tasks.any fun t => t.submissionId = id then (rt, some .limit)
      else
        match prepareProgram env rt vm index with
        | .error e => (rt, some e)
        | .ok (rt, _) =>
            if rt.outstandingLimit ≤ rt.tasks.length then (rt, some .limit)
            else if ¬ env.allocates vm "worker payload" then (rt, some .memory)
            else ({ rt with tasks := rt.tasks ++ [⟨id, index, payload, false⟩] }, none)

/-- `aivm_worker_runtime_release`. -/
def release (id : Nat) : WorkerRuntime := { rt with tasks := rt.tasks.eraseP fun t => t.submissionId = id }

/-- A submission that no worker thread has taken yet is canceled. -/
def cancel (id : Nat) : WorkerRuntime :=
  { rt with tasks := rt.tasks.map fun t => if t.submissionId = id then { t with canceled := true } else t }

end WorkerRuntime

/-! ## Invocations -/

/-- What an invocation leaves behind. -/
inductive InvocationResult where
  | completed (data : List Byte)
  | transportError (detail : String)
  | failed (detail : String)
deriving DecidableEq, Repr

/-- The worker VM of an invocation before its first instruction: it holds the payload and one frame. -/
def workerVm (env : Env) (p : WorkerProgram) (rt : WorkerRuntime) (id : Nat) (payload : List Byte) : Option Vm := do
  let vm ← initVm env p.loaded rt.syscallBindings [] rt.profile id
  let vm := { vm with syscallPolicy := p.requiredCapabilities }
  match (do
    stackPush (.bytes (.ext payload) payload.length)
    framePush p.loaded.instructions.length 0 : VmM Unit) vm with
  | .ok _ vm => return { vm with instructionPointer := p.functionTarget }
  | .fail vm => return vm
  | .undefined => none

/-- `error_detail` of an invocation holds 255 bytes. -/
def clipInvocationDetail (text : String) : String := String.ofList (text.toList.take 255)

/-- The end of `aivm_worker_invocation_run`, for a worker VM that has stopped. -/
def invocationResult (env : Env) (vm : Vm) : Option InvocationResult :=
  if vm.status = .error ∨ vm.callFrames ≠ [] ∨ vm.instructionPointer ≠ instructionCount vm ∨ vm.stack.length ≠ 1 then
    some (.failed (clipInvocationDetail vm.errorDetail))
  else
    match vm.stack with
    | [.bytes d n] =>
        if 0 < n ∧ d = .null then some (.transportError "Worker result must be bytes.")
        else if ¬ env.allocates vm "worker result" then some (.failed "Worker result allocation failed.")
        else (vm.bytesAt d n).map .completed
    | _ => some (.transportError "Worker result must be bytes.")

/-- `aivm_worker_invocation_run`. -/
def workerInvocationRun (env : Env) (nested : Vm → Option Vm) (p : WorkerProgram) (rt : WorkerRuntime) (id : Nat)
    (payload : List Byte) : Option InvocationResult :=
  if ¬ env.allocates (zeroedVm p.loaded) "worker VM" then some (.failed "Worker VM allocation failed.")
  else do
    let vm ← workerVm env p rt id payload
    let vm ← nested vm
    invocationResult env vm

end Aivm
