import Aivm.Machine.Workers

/-!
# Tasks

The task table of a VM: reclamation and tombstones, worker tasks and groups of them, subroutine workers, and the result
of a task. `nested` runs a worker VM until it stops.
-/

namespace Aivm

open VmM

variable (env : Env) (nested : Vm → Option Vm)

/-- Go on after a failure, in the state it left. -/
def VmM.attempt {α : Type} (x : VmM α) : VmM (Option α) := fun vm =>
  match x vm with
  | .ok a vm => .ok (some a) vm
  | .fail vm => .ok none vm
  | .undefined => .undefined

/-- Note what a VM does. -/
def noteEvent (e : VmEvent Vm) (vm : Vm) : Vm := { vm with events := vm.events ++ [e] }

/-! ## The task table -/

/-- `is_terminal_task_state`. -/
def TaskState.isTerminal (state : TaskState) : Bool := state ≠ .pending

/-- The slot of a handle, if it has one; handles are not used twice. -/
def taskSlot (vm : Vm) (handle : Nat) : Option Nat := vm.completedTasks.findIdx? fun t => t.handle = handle

/-- `is_task_handle_pinned`. -/
def isTaskHandlePinned (vm : Vm) (handle : Nat) : Bool :=
  .task handle ∈ vm.stack ∨ .task handle ∈ vm.locals ∨ .task handle ∈ vm.parValues ∨
    vm.completedTasks.any fun t => t.handle ≠ handle ∧ t.result = .task handle

def countSkipped (count : Nat) (vm : Vm) : Vm :=
  { vm with counters := { vm.counters with
      taskReclaimSkipPinnedCount := vm.counters.taskReclaimSkipPinnedCount + count } }

def countReclaimed (vm : Vm) : Vm :=
  { vm with counters := { vm.counters with taskReclaimCount := vm.counters.taskReclaimCount + 1 } }

def countExhausted (vm : Vm) : Vm :=
  { vm with counters := { vm.counters with taskReclaimExhaustedCount := vm.counters.taskReclaimExhaustedCount + 1 } }

/-- Take a slot out of the table. -/
def removeTaskSlot (slot : Nat) (vm : Vm) : Vm :=
  countReclaimed { vm with completedTasks := vm.completedTasks.eraseIdx slot }

/-- The oldest task that is terminal and not pinned. -/
def reclaimableSlot (vm : Vm) : Option Nat :=
  vm.completedTasks.findIdx? fun t => t.state.isTerminal ∧ ¬ isTaskHandlePinned vm t.handle

/-- `reclaim_oldest_completed_task_slot`. -/
def reclaimOldestCompletedTaskSlot : VmM Unit := do
  let vm ← get
  if vm.completedTasks = [] then
    return
  else
    match reclaimableSlot vm with
    | some slot => modify fun vm => removeTaskSlot slot (countSkipped slot vm)
    | none =>
        modify fun vm => countExhausted (countSkipped vm.completedTasks.length vm)
        giveUp

/-- `remove_completed_task_slot`. -/
def removeCompletedTaskSlot (handle : Nat) (vm : Vm) : Vm :=
  match taskSlot vm handle with
  | some slot => removeTaskSlot slot vm
  | none => vm

/-- `retain_consumed_task_tombstone`. -/
def retainConsumedTaskTombstone (handle : Nat) : VmM Unit := do
  let vm ← get
  if handle ∈ vm.consumedTaskHandles then
    return
  else if taskCapacity ≤ vm.consumedTaskHandles.length then
    throw ⟨.invalidProgram, "Task consumed tombstone capacity exceeded."⟩
  else
    modify fun vm => { vm with consumedTaskHandles := vm.consumedTaskHandles ++ [handle] }

def taskTableExceeded : Fault := ⟨.invalidProgram, "Task table capacity exceeded."⟩

/-- Make room for a task and take the next handle. -/
def nextTask : VmM Nat := do
  let vm ← get
  if taskCapacity ≤ vm.completedTasks.length then
    override taskTableExceeded reclaimOldestCompletedTaskSlot
  let vm ← get
  if vm.nextTaskHandle = int64Max then
    throw ⟨.invalidProgram, "Task handle overflow."⟩
  else if taskCapacity < vm.completedTasks.length + 1 then
    throw taskTableExceeded
  else
    return vm.nextTaskHandle

/-- Enter a task under the next handle. -/
def enterTask (task : CompletedTask Vm) (vm : Vm) : Vm :=
  { vm with nextTaskHandle := vm.nextTaskHandle + 1, completedTasks := vm.completedTasks ++ [task] }

/-- `push_completed_task`. -/
def pushCompletedTask (result : Value) : VmM Unit := do
  let handle ← nextTask
  modify (enterTask ⟨.completed, handle, result, none, 0, false⟩)
  stackPush (.task handle)

/-- `aivm_vm_allocate_worker_task`. -/
def allocateWorkerTask (workerCatalogIndex : Nat) : VmM Nat := do
  let handle ← nextTask
  modify (enterTask ⟨.pending, handle, .void, none, workerCatalogIndex, true⟩)
  return handle

/-! ## Worker tasks -/

def setWorkerRuntime (rt : WorkerRuntime) (vm : Vm) : Vm := { vm with workerRuntime := some rt }

/-- `aivm_vm_ensure_worker_runtime`. -/
def ensureWorkerRuntime : VmM Unit := do
  let vm ← get
  match vm.workerRuntime with
  | some _ => return
  | none =>
      match WorkerRuntime.create env vm with
      | some rt => modify (setWorkerRuntime rt)
      | none => throw ⟨.invalidProgram, "Worker runtime initialization failed."⟩

/-- The worker VM that a submission starts, for the record. -/
def startedWorkerVm (rt : WorkerRuntime) (index id : Nat) (payload : List Byte) : Option Vm := do
  let p ← (rt.programs[index]?).join
  workerVm env p rt id payload

/-- Note a submission. -/
def noteSubmission (rt : WorkerRuntime) (index id : Nat) (payload : List Byte) (vm : Vm) : Vm :=
  match startedWorkerVm env rt index id payload with
  | some worker => noteEvent (.workerSubmitted id index worker) vm
  | none => vm

/-- Submit a worker task that has been entered into the table, or take it out again and fail. -/
def submitWorkerTask (index handle : Nat) (payload : Option (List Byte)) (fault : WorkerRuntimeStatus → Fault) :
    VmM Unit := do
  let vm ← get
  match vm.workerRuntime with
  | none =>
      modify (removeCompletedTaskSlot handle)
      throw (fault .argument)
  | some rt =>
      match rt.submit env vm index handle payload with
      | (rt, none) => modify fun vm => noteSubmission env rt index handle (payload.getD []) (setWorkerRuntime rt vm)
      | (rt, some status) =>
          modify fun vm => removeCompletedTaskSlot handle (setWorkerRuntime rt vm)
          throw (fault status)

/-- The error of a submission that has been refused. -/
def WorkerRuntimeStatus.vmError (status : WorkerRuntimeStatus) : VmError :=
  if status = .memory then .memoryPressure else .invalidProgram

/-! ## Groups of worker tasks -/

/-- The next payload of a group has been submitted as the task `handle`. -/
def WorkerTaskGroup.materialized (g : WorkerTaskGroup) (handle : Nat) : WorkerTaskGroup :=
  { g with
    taskHandles := g.taskHandles.set g.nextMaterializeIndex handle
    nextMaterializeIndex := g.nextMaterializeIndex + 1 }

/-- `materialize_worker_task` of the next payload of a group. -/
def materializeWorkerTask (group : Nat) : VmM Unit := do
  let vm ← get
  match vm.workerTaskGroups[group]? with
  | none => giveUp
  | some g =>
      match g.payloads[g.nextMaterializeIndex]?, g.taskHandles[g.nextMaterializeIndex]? with
      | some payload, some 0 =>
          let handle ← allocateWorkerTask g.workerCatalogIndex
          submitWorkerTask env g.workerCatalogIndex handle (some payload) fun status =>
            ⟨status.vmError, "Worker batch materialization failed."⟩
          modify fun vm => { vm with workerTaskGroups := vm.workerTaskGroups.set group (g.materialized handle) }
      | _, _ => giveUp

/-- The inner loop of `aivm_vm_refill_worker_task_groups`; each round fills a slot of the table. -/
def refillGroup (group : Nat) : Nat → VmM Unit
  | 0 => return
  | rounds + 1 => do
      let vm ← get
      match vm.workerTaskGroups[group]? with
      | none => return
      | some g =>
          if g.nextMaterializeIndex < g.payloads.length ∧ vm.completedTasks.length < taskCapacity then
            materializeWorkerTask env group
            refillGroup group rounds
          else
            return

/-- The outer loop of `aivm_vm_refill_worker_task_groups`. -/
def refillGroups : List Nat → VmM Unit
  | [] => return
  | group :: groups => do
      let vm ← get
      if vm.completedTasks.length < taskCapacity then
        refillGroup env group taskCapacity
        refillGroups groups
      else
        return

/-- `aivm_vm_refill_worker_task_groups`. -/
def refillWorkerTaskGroups : VmM Unit := do
  let vm ← get
  refillGroups env (List.range vm.workerTaskGroups.length)

/-! ## Consumption -/

/-- A handle that is still held somewhere gets a tombstone. -/
def keepTombstone (handle : Nat) : VmM Unit := do
  let vm ← get
  if isTaskHandlePinned vm handle then
    retainConsumedTaskTombstone handle
    modify (countSkipped 1)

/-- `release_consumed_task_result`. -/
def releaseConsumedTaskResult (handle : Nat) : VmM Unit := do
  keepTombstone handle
  modify fun vm => noteEvent (.taskConsumed handle) (removeCompletedTaskSlot handle vm)
  refillWorkerTaskGroups env
  collectSafePoint env

/-! ## Results -/

/-- `task_terminal_payload_is_valid`. -/
def taskTerminalPayloadIsValid (vm : Vm) (t : CompletedTask Vm) : Option Bool :=
  if t.state = .failed ∨ t.state = .canceled then
    match t.result with
    | .node k =>
        match vm.lookupNode k with
        | none => some false
        | some n => (vm.cstr n.kind).map fun kind => kind = ascii "Err"
    | _ => some false
  else some true

/-- Change a task in its slot. -/
def modifyTask (slot : Nat) (f : CompletedTask Vm → CompletedTask Vm) (vm : Vm) : Vm :=
  { vm with completedTasks := vm.completedTasks.modify slot f }

/-- `create_canceled_result`. -/
def createCanceledResult : Routine env Nat :=
  Routine.createNode (litPtr "Err") (litPtr "worker_task_canceled")
    [⟨litPtr "code", .identifier (litPtr "TASK_CANCELED")⟩,
      ⟨litPtr "message", .string (litPtr "Worker task canceled.")⟩] (.array [])

/-- `aivm_worker_runtime_release` on the VM's runtime. -/
def releaseSubmission (id : Nat) (vm : Vm) : Vm :=
  { vm with workerRuntime := vm.workerRuntime.map fun rt => rt.release id }

/-- The result of a submission that has not been canceled. -/
def runSubmission (rt : WorkerRuntime) (t : WorkerRuntimeTask) : Option InvocationResult := do
  let p ← (rt.programs[t.workerCatalogIndex]?).join
  workerInvocationRun env nested p rt t.submissionId t.payload

/-- `aivm_vm_complete_worker_task`; the await of a submission that the runtime does not know reads a result that
nothing has written. -/
def completeWorkerTask (slot handle : Nat) : VmM Unit := do
  let vm ← get
  match vm.workerRuntime with
  | none => giveUp
  | some rt =>
      let t ← deref (rt.tasks.find? fun t => t.submissionId = handle)
      if t.canceled then
        let k ← (createCanceledResult env).run
        modify fun vm =>
          releaseSubmission handle (modifyTask slot (fun t => { t with result := .node k, state := .canceled }) vm)
      else
        let result ← deref (runSubmission env nested rt t)
        match result with
        | .completed data =>
            let d ← onFail (releaseSubmission handle) (bytesArenaAlloc env data)
            modify fun vm => releaseSubmission handle
              (modifyTask slot (fun t => { t with result := .bytes d data.length, state := .completed }) vm)
        | .transportError detail => onFail (releaseSubmission handle) (throw ⟨.typeMismatch, detail⟩)
        | .failed detail => onFail (releaseSubmission handle) (throw ⟨.invalidProgram, detail⟩)

/-- The end of `run_prepared_worker_vm`, for a worker VM that has stopped. -/
def preparedWorkerResult (worker : Vm) : Except Fault Value :=
  if worker.status = .error then .error ⟨worker.error, worker.errorDetail⟩
  else if worker.status ≠ .halted then .error ⟨.invalidProgram, "Subroutine terminated without RET."⟩
  else if worker.callFrames ≠ [] ∨ worker.instructionPointer ≠ instructionCount worker then
    .error ⟨.invalidProgram, "HALT is invalid inside ASYNC_CALL."⟩
  else if 1 < worker.stack.length then .error ⟨.invalidProgram, "Return restore invalid."⟩
  else .ok (worker.stack.getLast?.getD .void)

/-- `propagate_worker_error`. -/
def workerFault (f : Fault) : Fault := ⟨f.error, clip ("ASYNC_CALL worker failed: " ++ f.detail)⟩

/-- `complete_pending_bytecode_task` for a task in a slot. -/
def completePendingBytecodeTask (slot : Nat) (t : CompletedTask Vm) : VmM Unit :=
  if t.isWorkerTask then completeWorkerTask env nested slot t.handle
  else
    match t.workerContext with
    | none => return
    | some worker => do
        let worker ← deref (nested worker)
        match preparedWorkerResult worker with
        | .error f => throw (workerFault f)
        | .ok v =>
            let w ← copyWorkerBoundaryValue env worker "result" v
            modify (modifyTask slot fun t => { t with result := w, state := .completed, workerContext := none })

/-- `find_terminal_task_result`. -/
def findTerminalTaskResult (handle : Nat) : VmM Value := do
  let vm ← get
  match taskSlot vm handle with
  | none => notFound vm
  | some slot =>
      let t ← deref vm.completedTasks[slot]?
      if t.state = .pending then
        completePendingBytecodeTask env nested slot t
      let vm ← get
      let t ← deref vm.completedTasks[slot]?
      if t.state.isTerminal then
        if ← deref (taskTerminalPayloadIsValid vm t) then
          return t.result
        else
          throw ⟨.invalidProgram, "Terminal failed/canceled task requires Err node result."⟩
      else
        notFound vm
where
  notFound (vm : Vm) : VmM Value :=
    if handle ∈ vm.consumedTaskHandles then throw ⟨.invalidProgram, "TASK_CONSUMED"⟩ else giveUp

/-- `AWAIT`. -/
def await : VmM Unit := do
  let v ← stackPop
  match v with
  | .task handle =>
      let result ← orFault ⟨.invalidProgram, "AWAIT requires valid task handle."⟩
        (findTerminalTaskResult env nested handle)
      stackPush result
      releaseConsumedTaskResult env handle
      advance
  | _ => throw ⟨.invalidProgram, "AWAIT requires valid task handle."⟩

/-! ## Subroutine workers -/

/-- The worker VM of a subroutine before its arguments are copied into it. -/
def subroutineVm (vm : Vm) : Option Vm :=
  (aivmInit env vm.program vm.nextTaskHandle).map fun worker =>
    { setRuntimeProfile vm.runtimeProfile worker with syscallPolicy := policyAllowNone }

/-- Copy the arguments onto the worker's stack and push the frame of the subroutine. -/
def enterSubroutine (vm : Vm) (target : Nat) : List Value → VmM Unit
  | [] => do
      framePush (instructionCount vm) 0
      goTo target
  | v :: vs => do
      let w ← copyWorkerBoundaryValue env vm "argument" v
      stackPush w
      enterSubroutine vm target vs

/-- A running subroutine takes its arguments from the stack and a slot of the table. -/
def enterSubroutineTask (worker : Vm) (argCount handle : Nat) (vm : Vm) : Vm :=
  noteEvent (.subroutineStarted worker)
    (enterTask ⟨.pending, handle, .void, some worker, 0, false⟩
      { vm with stack := vm.stack.take (vm.stack.length - argCount) })

/-- `start_call_subroutine_worker`. -/
def startCallSubroutine (target : Nat) : VmM Nat := do
  let vm ← get
  if instructionCount vm ≤ target then
    throw ⟨.invalidProgram, "Invalid function index."⟩
  else
    let argCount ← (checkCallTarget env target).run
    let handle ← nextTask
    env.allocate "AIVMM001: bytecode worker context allocation failed."
    let vm ← get
    let worker ← deref (subroutineVm env vm)
    match enterSubroutine env vm target (vm.stack.drop (vm.stack.length - argCount)) worker with
    | .undefined => deref none
    | .fail worker => throw (workerFault ⟨worker.error, worker.errorDetail⟩)
    | .ok _ worker =>
        if env.startsThread vm then
          modify (enterSubroutineTask worker argCount handle)
          return handle
        else
          throw ⟨.invalidProgram, "ASYNC_CALL worker thread start failed."⟩

/-- `ASYNC_CALL`. -/
def asyncCall (operand : Int) : VmM Unit := do
  let target ← (Routine.operandToIndex operand : Routine env Nat).run
  let handle ← startCallSubroutine env target
  stackPush (.task handle)
  advance

/-! ## Worker instructions -/

/-- `WORKER_REF`. -/
def workerRef (operand : Int) : VmM Unit := do
  let index ← (Routine.operandToIndex operand : Routine env Nat).run
  let vm ← get
  if vm.program.workerCatalog.length ≤ index ∨ int64Max ≤ index then
    throw ⟨.invalidProgram, "WORKER_REF requires a valid WorkerCatalog index."⟩
  else
    stackPush (.workerRef (index + 1))
    advance

/-- The bytes of a payload; a view without data is `none`. -/
def readPayload (d : BytesPtr) (n : Nat) : VmM (Option (List Byte)) := do
  let vm ← get
  if 0 < n ∧ d = .null then
    return none
  else
    let data ← deref (vm.bytesAt d n)
    return some data

/-- `WORKER_RUN` with `aivm_vm_submit_worker_task`. -/
def workerRun : VmM Unit := do
  let payload ← stackPop
  let ref ← stackPop
  match ref, payload with
  | .workerRef (index + 1), .bytes d n =>
      let vm ← get
      if vm.program.workerCatalog.length ≤ index then
        giveUp
      else
        ensureWorkerRuntime env
        let handle ← allocateWorkerTask index
        let data ← readPayload d n
        submitWorkerTask env index handle data fun status =>
          ⟨status.vmError,
            if status = .capability then "Worker capability denied." else "Worker task admission failed."⟩
        stackPush (.task handle)
        advance
  | _, _ => throw ⟨.typeMismatch, "WORKER_RUN requires WorkerRef and bytes."⟩

/-- `validate_batch`: the payloads of a batch, each behind its length in four bytes. -/
def parseBatch : Nat → List Byte → Except Fault (List (List Byte))
  | _, [] => .ok []
  | 0, _ => .ok []
  | fuel + 1, data =>
      if data.length < 4 then .error ⟨.invalidProgram, "WORKER_RUN_ALL batch framing is truncated."⟩
      else
        let length := ByteReader.ofLe (data.take 4)
        let rest := data.drop 4
        if rest.length < length then .error ⟨.invalidProgram, "WORKER_RUN_ALL batch payload is truncated."⟩
        else do
          let payloads ← parseBatch fuel (rest.drop length)
          return rest.take length :: payloads

/-- The payloads of a batch, of which there is at least one. -/
def validateBatch (data : List Byte) : Except Fault (List (List Byte)) :=
  match parseBatch data.length data with
  | .ok [] => .error ⟨.invalidProgram, "WORKER_RUN_ALL requires at least one payload."⟩
  | r => r

/-- Enter an accepted workload into the group table. -/
def enterWorkload (index batchLength : Nat) (payloads : List (List Byte)) (vm : Vm) : Vm :=
  noteEvent (.workloadAccepted vm.nextWorkerTaskGroupHandle payloads)
    { vm with
      nextWorkerTaskGroupHandle := vm.nextWorkerTaskGroupHandle + 1
      workerTaskGroups := vm.workerTaskGroups ++
        [⟨vm.nextWorkerTaskGroupHandle, index, 0, payloads, payloads.map fun _ => 0⟩]
      workerLogicalTaskCount := vm.workerLogicalTaskCount + payloads.length
      workerLogicalInputBytes := vm.workerLogicalInputBytes + batchLength }

/-- The checks of `aivm_vm_submit_worker_tasks` on an accepted batch, and the workload. -/
def admitWorkload (index batchLength : Nat) (payloads : List (List Byte)) : VmM Nat := do
  let vm ← get
  if vm.workerLogicalTaskLimit < vm.workerLogicalTaskCount + payloads.length ∨
      vm.workerLogicalInputLimit < vm.workerLogicalInputBytes + batchLength then
    throw ⟨.memoryPressure, "WORKER_RUN_ALL exceeds the runtime-profile logical workload bound."⟩
  else if taskCapacity ≤ vm.workerTaskGroups.length ∨ vm.nextWorkerTaskGroupHandle = int64Max then
    throw ⟨.invalidProgram, "WORKER_RUN_ALL exceeds the deterministic workload-group bound."⟩
  else if vm.program.workerCatalog.length ≤ index then
    giveUp
  else
    ensureWorkerRuntime env
    env.allocate "WORKER_RUN_ALL could not retain bounded workload metadata."
    modify (enterWorkload index batchLength payloads)
    return vm.nextWorkerTaskGroupHandle

/-- The operands of `WORKER_RUN_ALL`. -/
def popWorkload (transportVersion : Nat) : VmM (Value × Value) :=
  override ⟨.invalidProgram, "WORKER_RUN_ALL requires transport version 1."⟩ do
    if transportVersion ≠ 1 then
      giveUp
    else
      let batch ← stackPop
      let ref ← stackPop
      return (ref, batch)

/-- `WORKER_RUN_ALL` with `aivm_vm_submit_worker_tasks`. -/
def workerRunAll (operand : Int) : VmM Unit := do
  let transportVersion ← (Routine.operandToIndex operand : Routine env Nat).run
  let operands ← popWorkload transportVersion
  match operands with
  | (.workerRef (index + 1), .bytes d n) =>
      let vm ← get
      let data ← deref (vm.bytesAt d n)
      match validateBatch data with
      | .error f => throw f
      | .ok payloads =>
          let group ← admitWorkload env index n payloads
          refillWorkerTaskGroups env
          stackPush (.workerTasks group)
          advance
  | _ => throw ⟨.typeMismatch, "WORKER_RUN_ALL requires WorkerRef and canonical batch bytes."⟩

/-- `WORKER_TASK_AT` with `aivm_vm_worker_task_at`. -/
def workerTaskAt : VmM Unit := do
  let index ← stackPop
  let tasks ← stackPop
  match tasks, index with
  | .workerTasks group, .int i =>
      if i < 0 then
        throw ⟨.typeMismatch, "WORKER_TASK_AT requires WorkerTasks and a non-negative index."⟩
      else
        let vm ← get
        match (vm.workerTaskGroups.find? fun g => g.handle = group).bind fun g => g.taskHandles[i.toNat]? with
        | none => throw ⟨.invalidProgram, "WORKER_TASK_AT index is outside the ordered workload."⟩
        | some 0 =>
            throw ⟨.invalidProgram, "WORKER_TASK_AT index is outside the materialized canonical window."⟩
        | some handle =>
            stackPush (.task handle)
            advance
  | _, _ => throw ⟨.typeMismatch, "WORKER_TASK_AT requires WorkerTasks and a non-negative index."⟩

/-- `aivm_worker_runtime_cancel`: whether the submission is canceled by this call. -/
def cancelSubmission (id : Nat) : VmM Bool := do
  let vm ← get
  match vm.workerRuntime with
  | none => return false
  | some rt =>
      match rt.tasks.find? fun t => t.submissionId = id with
      | none => giveUp
      | some t =>
          if t.canceled ∨ env.workerTaken vm id then
            return false
          else
            modify (setWorkerRuntime (rt.cancel id))
            return true

/-- `TASK_CANCEL` with `aivm_vm_cancel_task`. -/
def taskCancel : VmM Unit := do
  let v ← stackPop
  match v with
  | .task handle =>
      let vm ← get
      match vm.completedTasks.find? fun t => t.handle = handle with
      | none => throw ⟨.invalidProgram, "TASK_CANCEL requires a valid Task."⟩
      | some t =>
          let canceled ← if t.isWorkerTask ∧ t.state = .pending then cancelSubmission env handle else Pure.pure false
          stackPush (.bool canceled)
          advance
  | _ => throw ⟨.typeMismatch, "TASK_CANCEL requires Task."⟩

end Aivm
