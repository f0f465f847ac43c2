import Aivm.Machine.Nodes
import Aivm.Model.Lifecycle

/-!
# Reset and initialization

`aivm_reset_state` of a VM whose storage is in place, `aivm_vm_initialize_process_argv_node` and the initialization of a
zeroed VM. The argument node and its children are the first nodes of every VM.
-/

namespace Aivm

open VmM

variable (env : Env)

/-- `AIVM_VM_NODE_CAPACITY`. -/
def vmNodeCapacity : Nat := 16384

/-- The loop over the arguments of the process. -/
def createArgvItems : List (List Byte × Nat) → Routine env Unit
  | [] => return
  | (arg, i) :: rest => do
      let k ← Routine.createNode (litPtr "Lit") (.lit (ascii "argv_item_" ++ natDecimal i))
        [⟨litPtr "value", .string (.lit arg)⟩] (.array [])
      if k ≠ i + 2 then
        Routine.throw ⟨.invalidProgram, "process argv child handle invariant violated."⟩
      createArgvItems rest

/-- The root of the arguments, which names its children before they are made. -/
def createArgvRoot (count : Nat) : Routine env Nat := do
  if vmNodeCapacity < count then
    Routine.throw ⟨.invalidProgram, "process argv exceeds node capacity."⟩
  Routine.createNode (litPtr "Block") (litPtr "argv0") [] (.array (List.range' 2 count))

/-- The root is the first node. -/
def checkArgvRoot (k : Nat) : Routine env Unit := do
  if k ≠ 1 then
    Routine.throw ⟨.invalidProgram, "process argv root handle invariant violated."⟩

/-- `aivm_vm_initialize_process_argv_node`. -/
def initializeProcessArgvNode : VmM Unit := do
  modify fun vm => { vm with processArgvNodeHandle := 0 }
  let vm ← get
  let k ← (createArgvRoot env vm.processArgv.length).run
  modify fun vm => { vm with processArgvNodeHandle := k }
  (checkArgvRoot env k).run
  (createArgvItems env vm.processArgv.zipIdx).run

/-- `aivm_reset_state`; what becomes of the argument node is not checked. -/
def resetState (vm : Vm) : Option Vm :=
  match initializeProcessArgvNode env (resetFields vm) with
  | .ok _ vm => some { vm with nodeAllocationsSinceGc := 0 }
  | .fail vm => some { vm with nodeAllocationsSinceGc := 0 }
  | .undefined => none

/-- `aivm_init_with_syscalls_and_argv_profile` on zeroed memory. A VM without storage cannot be used. -/
def initVm (program : Program) (bindings : List SyscallBinding) (argv : List (List Byte)) (profile : RuntimeProfile)
    (hostClock : Nat) : Option Vm :=
  let vm := { setRuntimeProfile profile (zeroedVm program) with
    syscallBindings := bindings, processArgv := argv, hostClock := hostClock }
  if env.allocates vm "VM storage" then resetState env vm else none

/-- `aivm_runtime_default_profile`. -/
def runtimeDefaultProfile : RuntimeProfile := .production

/-- `aivm_init`. -/
def aivmInit (program : Program) (hostClock : Nat) : Option Vm :=
  initVm env program [] [] runtimeDefaultProfile hostClock

end Aivm
