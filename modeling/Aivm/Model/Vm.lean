import Aivm.Model.Meaning
import Aivm.Model.Types

/-!
# The VM state

The fields of `AivmVm`. Arrays are kept as lists of their live entries, so a count of the source is a length here.
The stack is listed from the bottom. Slots of `locals` above `locals_count` keep what was stored there, and a later
`STORE_LOCAL` can bring them back: they are kept in `staleLocals`, followed by void values.
-/

namespace Aivm

def stackCapacity : Nat := 20000
def stackInitialCapacity : Nat := 1024
def stackGrowthStep : Nat := 512
def callFrameCapacity : Nat := 2048
def callFrameInitialCapacity : Nat := 256
def callFrameGrowthStep : Nat := 256
def localsCapacity : Nat := 16384
def localsInitialCapacity : Nat := 2048
def localsGrowthStep : Nat := 1024
def stringArenaInitialCapacity : Nat := 8192
def stringArenaGrowthStep : Nat := 16384
def bytesArenaInitialCapacity : Nat := 32768
def bytesArenaGrowthStep : Nat := 16384
def maxSyscallArgs : Nat := 16
def vmNodeAttrCapacity : Nat := 65536
def vmNodeChildCapacity : Nat := 131072
def nodeBuilderCapacity : Nat := 512
def mapCapacity : Nat := 128
def taskCapacity : Nat := 256
def parContextCapacity : Nat := 64
def parValueCapacity : Nat := 1024
def scratchPairCapacity : Nat := 32768
def nodeGcIntervalAllocations : Nat := 64
def nodeGcReturnSafepointAllocations : Nat := 512
def nodeGcPressureThresholdNumerator : Nat := 3
def nodeGcPressureThresholdDenominator : Nat := 4
def int64Max : Nat := 9223372036854775807

structure CallHistoryEntry where
  instructionPointer : Nat
  target : Nat
  argCount : Nat
  stackCount : Nat
deriving DecidableEq, Repr

structure ReturnHistoryEntry where
  instructionPointer : Nat
  stackCount : Nat
  preRestoreStackCount : Nat
  frameBase : Nat
  hasReturnValue : Bool
deriving DecidableEq, Repr

structure OpcodeHistoryEntry where
  instructionPointer : Nat
  opcode : Opcode
  stackCount : Nat
deriving DecidableEq, Repr

/-- A task of the owner VM; `worker` is the worker VM started for it, if any. -/
structure CompletedTask (W : Type) where
  state : TaskState
  handle : Nat
  result : Value
  workerContext : Option W
  workerCatalogIndex : Nat
  isWorkerTask : Bool

/-- A batch of worker payloads; a task handle `0` is not materialized yet. -/
structure WorkerTaskGroup where
  handle : Nat
  workerCatalogIndex : Nat
  nextMaterializeIndex : Nat
  payloads : List (List Byte)
  taskHandles : List Nat
deriving DecidableEq, Repr

/-- A host function for one system call target; the handler is a number that the host knows. -/
structure SyscallBinding where
  target : Option (List Byte)
  handler : Option Nat
deriving DecidableEq, Repr

/-! ## Workers of the catalog -/

/-- A loaded artifact of the worker catalog, with the mask of the capabilities its entry requires. -/
structure WorkerProgram where
  loaded : Program
  functionTarget : Nat
  requiredCapabilities : UInt64
deriving DecidableEq, Repr

/-- A submitted invocation; `canceled` tells that the scheduler has canceled it before a worker thread took it. -/
structure WorkerRuntimeTask where
  submissionId : Nat
  workerCatalogIndex : Nat
  payload : List Byte
  canceled : Bool
deriving DecidableEq, Repr

/-- The worker runtime of an owner VM: what it copied from its owner when it was created, the artifacts loaded so far,
and its occupied task slots. -/
structure WorkerRuntime where
  parentPolicy : UInt64
  syscallBindings : List SyscallBinding
  profile : RuntimeProfile
  outstandingLimit : Nat
  programs : List (Option WorkerProgram)
  tasks : List WorkerRuntimeTask
deriving DecidableEq, Repr

/-! ## Events -/

/-- What a VM does beyond its own state. Nothing reads these events; they are kept to speak about runs. A worker is
recorded as it is before its first instruction. -/
inductive VmEvent (W : Type) where
  | handlerInvoked (target : List Byte)
  | subroutineStarted (worker : W)
  | workerSubmitted (submissionId workerCatalogIndex : Nat) (worker : W)
  | workloadAccepted (group : Nat) (payloads : List (List Byte))
  | taskConsumed (handle : Nat)

/-! ## The state -/

/-- Limits that grow in steps up to a capacity, and counters that only statistics read. -/
structure Limits where
  stackLimit : Nat
  callFrameLimit : Nat
  localsLimit : Nat
  stringArenaLimit : Nat
  stringArenaCapacity : Nat
  bytesArenaLimit : Nat
  bytesArenaCapacity : Nat
  bytesArenaGcThreshold : Nat
  nodeCapacity : Nat
  nodeAttrCapacity : Nat
  nodeChildCapacity : Nat
  hostMemoryGrowthSuspended : Bool
deriving DecidableEq, Repr

structure Counters where
  stringArenaHighWater : Nat
  bytesArenaHighWater : Nat
  nodeHighWater : Nat
  nodeAttrHighWater : Nat
  nodeChildHighWater : Nat
  nodeGcCompactionCount : Nat
  nodeGcAttemptCount : Nat
  nodeGcReclaimedNodes : Nat
  nodeGcReclaimedAttrs : Nat
  nodeGcReclaimedChildren : Nat
  stringArenaPressureCount : Nat
  bytesArenaPressureCount : Nat
  nodeArenaPressureCount : Nat
  taskReclaimCount : Nat
  taskReclaimSkipPinnedCount : Nat
  taskReclaimExhaustedCount : Nat
deriving DecidableEq, Repr

/-- The content index of the string arena. -/
structure StringIntern where
  entries : List StringInternEntry
  count : Nat
  complete : Bool
deriving DecidableEq, Repr

/-- The last `(text, rune, byte)` position found while walking a string. -/
structure Utf8OffsetCache where
  text : StrPtr
  rune : Nat
  byte : Nat
deriving DecidableEq, Repr

structure Vm extends Heap, Limits where
  program : Program
  runtimeProfile : RuntimeProfile
  instructionPointer : Nat
  status : VmStatus
  error : VmError
  errorDetail : String
  stack : List Value
  callFrames : List CallFrame
  recentCalls : List CallHistoryEntry
  recentReturns : List ReturnHistoryEntry
  recentOpcodes : List OpcodeHistoryEntry
  locals : List Value
  staleLocals : List Value
  stringIntern : StringIntern
  utf8OffsetCache : Utf8OffsetCache
  syscallPolicy : UInt64
  syscallBindings : List SyscallBinding
  processArgv : List (List Byte)
  processArgvNodeHandle : Nat
  completedTasks : List (CompletedTask Vm)
  consumedTaskHandles : List Nat
  nextTaskHandle : Nat
  workerRuntime : Option WorkerRuntime
  workerTaskGroups : List WorkerTaskGroup
  workerLogicalTaskCount : Nat
  workerLogicalInputBytes : Nat
  workerLogicalTaskLimit : Nat
  workerLogicalInputLimit : Nat
  nextWorkerTaskGroupHandle : Nat
  parContexts : List ParContext
  parValues : List Value
  nextParNodeId : Nat
  nodeBuilders : List (Option NodeBuilderRecord)
  maps : List (Option MapRecord)
  uiDefaultWindowSizeNodeHandle : Nat
  uiEmptyEventNodeHandle : Nat
  nodeAllocationsSinceGc : Nat
  networkReadBytesUsed : Nat
  networkWriteBytesUsed : Nat
  syscallElapsedLimitMs : Nat
  counters : Counters
  /-- Advances with every instruction, so that the host may answer differently each time. -/
  hostClock : Nat
  events : List (VmEvent Vm)

/-! ## Outcomes -/

/-- The outcome of an operation: the source's success and failure results, and the read of storage that is gone. -/
inductive Outcome (α : Type) where
  | ok (value : α) (vm : Vm)
  | fail (vm : Vm)
  | undefined

def Outcome.succeeds {α : Type} : Outcome α → Bool
  | .ok _ _ => true
  | _ => false

theorem Outcome.succeeds_iff {α : Type} {o : Outcome α} : o.succeeds = true ↔ ∃ a vm, o = .ok a vm := by
  cases o <;> simp [Outcome.succeeds]

/-- An operation on the VM. A failed operation leaves the state it failed in. -/
def VmM (α : Type) : Type := Vm → Outcome α

namespace VmM

variable {α β γ : Type}

def pure (a : α) : VmM α := fun vm => .ok a vm

def bind (x : VmM α) (f : α → VmM β) : VmM β := fun vm =>
  match x vm with
  | .ok a vm' => f a vm'
  | .fail vm' => .fail vm'
  | .undefined => .undefined

instance : Monad VmM where
  pure := VmM.pure
  bind := VmM.bind

instance : LawfulMonad VmM :=
  LawfulMonad.mk' VmM
    (fun x => by
      funext vm
      show VmM.bind x VmM.pure vm = x vm
      unfold VmM.bind VmM.pure
      cases x vm <;> rfl)
    (fun _ _ => rfl)
    (fun x f g => by
      funext vm
      show VmM.bind (VmM.bind x f) g vm = VmM.bind x (fun a => VmM.bind (f a) g) vm
      unfold VmM.bind
      cases x vm <;> rfl)

/-- The state before the next operation. -/
def get : VmM Vm := fun vm => .ok vm vm

def modify (f : Vm → Vm) : VmM Unit := fun vm => .ok () (f vm)

/-- Give up, leaving the state as it is. -/
def giveUp : VmM α := fun vm => .fail vm

/-- Read storage that may be gone. -/
def deref (x : Option α) : VmM α := fun vm =>
  match x with
  | some a => .ok a vm
  | none => .undefined

/-- `aivm_set_vm_error`. -/
def setVmError (f : Fault) (vm : Vm) : Vm :=
  { vm with status := .error, error := f.error, errorDetail := f.detail }

/-- Set an error and give up. -/
def throw (f : Fault) : VmM α := fun vm => .fail (setVmError f vm)

/-- Run a computation that reads the state and may end in a fault. -/
def lift (f : Vm → Except Fault α) : VmM α := fun vm =>
  match f vm with
  | .ok a => .ok a vm
  | .error e => .fail (setVmError e vm)

/-- Note something in the state an operation fails in. -/
def onFail (f : Vm → Vm) (x : VmM α) : VmM α := fun vm =>
  match x vm with
  | .fail vm' => .fail (f vm')
  | o => o

/-- Rewrite the state, or set an error and give up. -/
def updateOr (e : Fault) (f : Vm → Option Vm) : VmM Unit := fun vm =>
  match f vm with
  | some vm' => .ok () vm'
  | none => .fail (setVmError e vm)

@[simp] theorem pure_run (a : α) (vm : Vm) : (Pure.pure a : VmM α) vm = .ok a vm := rfl
@[simp] theorem get_run (vm : Vm) : VmM.get vm = .ok vm vm := rfl
@[simp] theorem modify_run (f : Vm → Vm) (vm : Vm) : VmM.modify f vm = .ok () (f vm) := rfl
@[simp] theorem giveUp_run (vm : Vm) : (giveUp : VmM α) vm = .fail vm := rfl
@[simp] theorem throw_run (f : Fault) (vm : Vm) : (throw f : VmM α) vm = .fail (setVmError f vm) := rfl

theorem bind_run (x : VmM α) (f : α → VmM β) (vm : Vm) :
    (x >>= f) vm = match x vm with
      | .ok a vm' => f a vm'
      | .fail vm' => .fail vm'
      | .undefined => .undefined := rfl

theorem bind_ok {x : VmM α} {f : α → VmM β} {vm b vm'} :
    (x >>= f) vm = .ok b vm' ↔ ∃ a vm₁, x vm = .ok a vm₁ ∧ f a vm₁ = .ok b vm' := by
  rw [bind_run]
  cases x vm with
  | ok a vm₁ => simp
  | fail vm₁ => simp
  | undefined => simp

theorem deref_ok {x : Option α} {vm a vm'} : deref x vm = .ok a vm' ↔ x = some a ∧ vm' = vm := by
  cases x <;> simp [deref, eq_comm]

theorem lift_ok {f : Vm → Except Fault α} {vm a vm'} : lift f vm = .ok a vm' ↔ f vm = .ok a ∧ vm' = vm := by
  unfold lift
  cases f vm <;> simp [eq_comm]

theorem onFail_ok {f : Vm → Vm} {x : VmM α} {vm a vm'} : onFail f x vm = .ok a vm' ↔ x vm = .ok a vm' := by
  unfold onFail
  cases x vm <;> simp

theorem updateOr_ok {e : Fault} {f : Vm → Option Vm} {vm u vm'} :
    updateOr e f vm = .ok u vm' ↔ f vm = some vm' := by
  unfold updateOr
  cases f vm <;> simp

end VmM

end Aivm
