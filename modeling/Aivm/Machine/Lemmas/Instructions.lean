import Aivm.Machine.Lemmas.TaskBook
import Aivm.Machine.Step
import Aivm.Workers.Batches

/-!
# Every instruction is admitted

One lemma for each operation of control, parallel blocks, tasks and workers, and one for `execute`.
-/

namespace Aivm

open VmM

/-- An instruction that leaves a frame. -/
def Instruction.returns (i : Instruction) : Bool := i.opcode = .ret ∨ i.opcode = .return_

section Outcomes

variable {env : Env} {vm vm' : Vm}

/-- A state in which an instruction fails. -/
theorem ends_trans {Q : Vm → Vm → Prop} (hq : Chains Q) {α : Type} {x : VmM α} {vm₀ : Vm} (h : Q vm₀ vm) (hx : Ends Q x vm) :
    ∀ {vm'}, (x vm).state? = some vm' → Q vm₀ vm' := fun hs => hq.trans h (hx _ hs)

theorem state?_bind {α β : Type} {x : VmM α} {f : α → VmM β} (h : ((x >>= f) vm).state? = some vm') :
    x vm = .fail vm' ∨ ∃ a vm₁, x vm = .ok a vm₁ ∧ (f a vm₁).state? = some vm' := by
  rw [bind_run] at h
  cases hx : x vm with
  | ok a vm₁ =>
      simp only [hx] at h
      exact .inr ⟨a, vm₁, rfl, h⟩
  | fail vm₁ =>
      simp only [hx, Outcome.state?, Option.some.injEq] at h
      exact .inl (h ▸ rfl)
  | undefined => simp [hx, Outcome.state?] at h

/-- Reclamation only takes a task out of the table. -/
theorem reclaimOldestCompletedTaskSlot_ok {u} (h : reclaimOldestCompletedTaskSlot vm = .ok u vm') :
    vm' = { vm with completedTasks := vm'.completedTasks, counters := vm'.counters } := by
  obtain ⟨_, _, hget, h⟩ := bind_ok.1 h
  cases hget
  split at h
  · cases h
    cases vm
    rfl
  cases hslot : reclaimableSlot vm with
  | some slot =>
      rw [hslot] at h
      cases h
      rfl
  | none =>
      rw [hslot] at h
      cases h

theorem nextTask_ok {handle : Nat} (h : nextTask vm = .ok handle vm') :
    handle = vm'.nextTaskHandle ∧ vm'.HasRoom ∧
      vm' = { vm with completedTasks := vm'.completedTasks, counters := vm'.counters } := by
  have hlast : ∀ {vm₁ : Vm}, (do
      let vm ← VmM.get
      if vm.nextTaskHandle = int64Max then
        VmM.throw ⟨.invalidProgram, "Task handle overflow."⟩
      else if taskCapacity < vm.completedTasks.length + 1 then
        VmM.throw taskTableExceeded
      else
        return vm.nextTaskHandle : VmM Nat) vm₁ = .ok handle vm' → vm' = vm₁ ∧ handle = vm'.nextTaskHandle ∧ vm'.HasRoom := by
    intro vm₁ h
    obtain ⟨_, _, hget, h⟩ := bind_ok.1 h
    cases hget
    split at h
    · cases h
    rename_i hmax
    split at h
    · cases h
    · rename_i hroom
      cases h
      exact ⟨rfl, rfl, hmax, by omega⟩
  obtain ⟨_, _, hget, h⟩ := bind_ok.1 h
  cases hget
  dsimp only at h
  split at h
  · obtain ⟨_, vm₁, hreclaim, h⟩ := bind_ok.1 h
    obtain ⟨rfl, hhandle, hroom⟩ := hlast h
    exact ⟨hhandle, hroom, reclaimOldestCompletedTaskSlot_ok (onFail_ok.1 hreclaim)⟩
  · obtain ⟨rfl, hhandle, hroom⟩ := hlast h
    refine ⟨hhandle, hroom, ?_⟩
    cases vm'
    rfl

theorem ensureWorkerRuntime_ok {u} (h : ensureWorkerRuntime env vm = .ok u vm') :
    vm' = { vm with workerRuntime := vm'.workerRuntime } := by
  obtain ⟨_, _, hget, h⟩ := bind_ok.1 h
  cases hget
  cases hrt : vm.workerRuntime with
  | some rt =>
      rw [hrt] at h
      cases h
      rw [hrt]
      cases vm
      cases hrt
      rfl
  | none =>
      rw [hrt] at h
      cases hcreate : WorkerRuntime.create env vm with
      | some rt =>
          simp only [hcreate] at h
          cases h
          rfl
      | none =>
          simp only [hcreate] at h
          cases h

/-- A batch that is accepted holds a payload. -/
theorem validateBatch_ne_nil {data : List Byte} {payloads} (h : validateBatch data = .ok payloads) : payloads ≠ [] := by
  rintro rfl
  unfold validateBatch at h
  split at h
  · cases h
  · rename_i hne
    exact hne h

/-- The payloads of a batch and the lengths in front of them are all its bytes. -/
theorem validateBatch_length {data : List Byte} {payloads} (h : validateBatch data = .ok payloads) :
    data.length = batchBytes payloads := by
  unfold validateBatch at h
  split at h
  · cases h
  · obtain ⟨-, hbytes⟩ := (Batches.parseBatch_ok (Nat.le_refl _)).1 h
    rw [hbytes, List.length_flatMap]
    simp [batchBytes]

/-- A view has as many bytes as it says. -/
theorem Heap.bytesAt_length {heap : Heap} {d : BytesPtr} {n : Nat} {data : List Byte} (h : heap.bytesAt d n = some data) :
    data.length = n := by
  unfold Heap.bytesAt at h
  split at h
  · rename_i hzero
    cases h
    exact hzero.symm
  split at h
  · cases h
  · split at h
    · rename_i hle
      cases h
      rw [List.length_take]
      omega
    · cases h
  · split at h
    · rename_i hle
      cases h
      rw [List.length_take, List.length_drop]
      omega
    · cases h

theorem parseBatch_fault {fuel : Nat} : ∀ {data e}, parseBatch fuel data = .error e → e.Regular := by
  have hregular : ∀ {text : String}, text.toList.head? = some 'W' → Fault.Regular ⟨.invalidProgram, text⟩ := fun h =>
    .of_head (by simp) h (by simp)
  induction fuel with
  | zero =>
      intro data e h
      cases data <;> cases h
  | succ fuel ih =>
      intro data e h
      cases data with
      | nil => cases h
      | cons b bs =>
          unfold parseBatch at h
          split at h
          · cases h
            exact hregular (by simp)
          dsimp only at h
          split at h
          · cases h
            exact hregular (by simp)
          obtain h | ⟨_, _, h⟩ := Results.bind_error.1 h
          · exact ih h
          · cases h

theorem validateBatch_fault {data : List Byte} {e} (h : validateBatch data = .error e) : e.Regular := by
  unfold validateBatch at h
  split at h
  · cases h
    exact .of_head (by simp) (c := 'W') (by simp) (by simp)
  · exact parseBatch_fault h

end Outcomes

namespace Proceeds

variable {env : Env} {nested : Vm → Option Vm} {Q : Vm → Vm → Prop} {vm vm' vm₀ : Vm} {α : Type}

/-! ## Calls -/

theorem framePush (hc : Proceeds env nested Q) {target base : Nat} (ht : target ≤ instructionCount vm)
    (hb : ∀ frame ∈ vm.callFrames.getLast?, frame.frameBase ≤ base) : Ends Q (Aivm.framePush target base) vm := by
  refine .bind hc.chains (hc.validate _ vm) fun _ vm₁ h => ?_
  obtain ⟨rfl, -, hfits⟩ := validateCallLocalState_ok h
  refine .get_bind (.ite (fun _ => hc.throw_bind (.of_head (by simp) (c := 'C') (by simp) (by simp)) _) fun hbase => ?_)
  refine .modify_bind hc.chains (hc.frameLimit _ _) (.get_bind (.ite (fun _ => ?_) fun hroom => ?_))
  · exact hc.throw_bind (.of_head (by simp) (c := 'C') (by simp) (by simp)) _
  · exact .modify (hc.pushFrame _ (Nat.le_of_not_lt hbase) (Nat.le_of_not_lt hroom) ht
      fun frame hf => ⟨hb frame hf, (hfits frame hf).2⟩)

theorem framePush_program {target base : Nat} {u} (h : Aivm.framePush target base vm = .ok u vm') :
    vm'.program = vm.program := by
  obtain ⟨_, vm₁, hvalidate, hpush⟩ := bind_ok.1 h
  obtain ⟨rfl, -, -⟩ := validateCallLocalState_ok hvalidate
  obtain ⟨_, _, hget, h⟩ := bind_ok.1 hpush
  cases hget
  dsimp only at h
  split at h
  · obtain ⟨_, _, hthrow, -⟩ := bind_ok.1 h
    cases hthrow
  obtain ⟨_, _, hlimit, h⟩ := bind_ok.1 h
  cases hlimit
  obtain ⟨_, _, hget, h⟩ := bind_ok.1 h
  cases hget
  split at h
  · obtain ⟨_, _, hthrow, -⟩ := bind_ok.1 h
    cases hthrow
  · cases h
    rfl

theorem jump (hc : Proceeds env nested Q) (operand : Int) : Lands Q (Aivm.jump env operand) vm := by
  refine .bind hc.chains (hc.routine _) fun target vm₁ _ => .bind hc.chains (hc.routine _) fun _ vm₂ h => ?_
  obtain ⟨rfl, hle⟩ := jumpTarget_ok h
  exact .goTo hc.chains hle

theorem jumpIfFalse (hc : Proceeds env nested Q) (operand : Int) : Lands Q (Aivm.jumpIfFalse env operand) vm := by
  refine .bind hc.chains (hc.routine _) fun target vm₁ _ => .bind hc.chains (hc.routine _) fun _ vm₂ _ => ?_
  refine .ite (fun _ => .advance hc.chains) fun _ => .bind hc.chains (hc.routine _) fun _ vm₃ h => ?_
  obtain ⟨rfl, hle⟩ := jumpTarget_ok h
  exact .goTo hc.chains hle

/-- The instruction behind a call is a return address. -/
theorem call (hc : Proceeds env nested Q) (operand : Int) (hip : vm.instructionPointer < instructionCount vm) :
    Lands Q (Aivm.call env operand) vm := by
  refine .bind hc.chains (hc.routine _) fun target vm₁ h => ?_
  cases operandToIndex_ok h
  refine .get_bind (.ite (fun _ => .of_ends (hc.throw (.of_head (by simp) (c := 'C') (by simp) (by simp)))) fun hlt => ?_)
  refine .bind hc.chains (hc.routine _) fun argCount vm₂ h => ?_
  obtain ⟨rfl, hargs⟩ := checkCallTarget_ok h
  refine .modify_bind hc.chains (hc.quiet ⟨rfl, Nat.le_refl _⟩) ?_
  refine .bind hc.chains (hc.routine _) fun _ vm₃ h => ?_
  obtain ⟨rfl, hbase⟩ := checkArgumentFrame_ok h
  have htarget : target ≤ vm₂.program.instructions.length := Nat.le_of_not_le hlt
  refine .get_bind ?_
  split
  · rename_i frame _ hframe
    have hreuse := hc.reuse (recordRecentCall target argCount vm₂) hframe hargs (hbase frame hframe)
    exact .modify_bind hc.chains hreuse (.goTo hc.chains htarget)
  · refine .bind hc.chains (hc.framePush hip hbase) fun _ vm₄ h => .goTo hc.chains ?_
    rw [instructionCount, framePush_program h]
    exact htarget

/-! ## The task table -/

theorem reclaimOldestCompletedTaskSlot (hc : Proceeds env nested Q) : Ends Q Aivm.reclaimOldestCompletedTaskSlot vm := by
  refine .get_bind (.ite (fun _ => .pure hc.chains ()) fun _ => ?_)
  cases hslot : reclaimableSlot vm with
  | some slot => exact .modify (hc.reclaimed vm hslot)
  | none => exact hc.modify_bind ⟨rfl, Nat.le_refl _⟩ (.giveUp hc.chains)

theorem taskTableExceeded_regular : taskTableExceeded.Regular :=
  .of_head (by simp) (c := 'T') (by simp) (by simp)

theorem nextTask (hc : Proceeds env nested Q) : Ends Q Aivm.nextTask vm := by
  have hlast : ∀ vm, Ends Q (do
      let vm ← VmM.get
      if vm.nextTaskHandle = int64Max then
        VmM.throw ⟨.invalidProgram, "Task handle overflow."⟩
      else if taskCapacity < vm.completedTasks.length + 1 then
        VmM.throw taskTableExceeded
      else
        return vm.nextTaskHandle) vm := fun vm =>
    .get_bind (.ite (fun _ => hc.throw (.of_head (by simp) (c := 'T') (by simp) (by simp))) fun _ =>
      .ite (fun _ => hc.throw taskTableExceeded_regular) fun _ => .pure hc.chains _)
  refine .get_bind (.ite (fun _ => hc.bind (hc.override taskTableExceeded_regular hc.reclaimOldestCompletedTaskSlot) ?_)
    fun _ => hlast vm)
  exact fun _ => hlast

theorem pushCompletedTask (hc : Proceeds env nested Q) (v : Value) : Ends Q (Aivm.pushCompletedTask v) vm := by
  refine .bind hc.chains hc.nextTask fun handle vm₁ h => ?_
  obtain ⟨rfl, hroom, -⟩ := nextTask_ok h
  exact .modify_bind hc.chains (hc.entered v vm₁ hroom) (hc.stackPush _)

/-! ## Worker tasks -/

theorem ensureWorkerRuntime (hc : Proceeds env nested Q) : Ends Q (Aivm.ensureWorkerRuntime env) vm := by
  refine .get_bind ?_
  cases hrt : vm.workerRuntime with
  | some rt => exact .pure hc.chains ()
  | none =>
      cases hcreate : WorkerRuntime.create env vm with
      | some rt => exact .modify (hc.created vm hrt hcreate)
      | none => exact hc.throw (.of_head (by simp) (c := 'W') (by simp) (by simp))

theorem vmError_ne_none (status : WorkerRuntimeStatus) : status.vmError ≠ .none := by
  cases status <;> simp [WorkerRuntimeStatus.vmError]

/-- A worker task is entered and submitted in one change, or it is taken out of the table again. -/
theorem submitEntered (hc : Proceeds env nested Q) {index : Nat} {payload : Option (List Byte)}
    {fault : WorkerRuntimeStatus → Fault} (hf : ∀ status, (fault status).Regular) (hroom : vm.HasRoom)
    (h : (Aivm.submitWorkerTask env index vm.nextTaskHandle payload fault
      (enterTask (pendingWorkerTask index vm.nextTaskHandle) vm)).state? = some vm') : Q vm vm' := by
  obtain hget | ⟨_, _, hget, h⟩ := state?_bind h
  · cases hget
  cases hget
  cases hrt : vm.workerRuntime with
  | none =>
      have hentered : (enterTask (pendingWorkerTask index vm.nextTaskHandle) vm).workerRuntime = none := hrt
      simp only [hentered] at h
      exact ends_trans hc.chains (hc.unheard index vm hroom hrt) (hc.throw (hf _)) h
  | some rt =>
      have hentered : (enterTask (pendingWorkerTask index vm.nextTaskHandle) vm).workerRuntime = some rt := hrt
      simp only [hentered] at h
      rcases hsubmit : rt.submit env (enterTask (pendingWorkerTask index vm.nextTaskHandle) vm) index vm.nextTaskHandle
        payload with ⟨rt', _ | status⟩
      · simp only [hsubmit, modify_run, Outcome.state?, Option.some.injEq] at h
        exact h ▸ hc.submitted vm hroom hrt hsubmit
      · simp only [hsubmit] at h
        exact ends_trans hc.chains (hc.refused vm hroom hrt hsubmit) (hc.throw (hf _)) h

/-- The submission of a task that has been entered. -/
theorem submitWorkerTask_ok {index handle : Nat} {payload : Option (List Byte)} {fault u}
    (h : Aivm.submitWorkerTask env index handle payload fault vm = .ok u vm') :
    ∃ rt rt', vm.workerRuntime = some rt ∧ rt.submit env vm index handle payload = (rt', none) ∧
      vm' = noteSubmission env rt' index handle (payload.getD []) (setWorkerRuntime rt' vm) := by
  obtain ⟨_, _, hget, h⟩ := bind_ok.1 h
  cases hget
  cases hrt : vm.workerRuntime with
  | none =>
      simp only [hrt] at h
      cases h
  | some rt =>
      rcases hsubmit : rt.submit env vm index handle payload with ⟨rt', _ | status⟩
      · simp only [hrt, hsubmit] at h
        cases h
        exact ⟨rt, rt', rfl, hsubmit, rfl⟩
      · simp only [hrt, hsubmit] at h
        cases h

theorem noteSubmission_groups (rt : WorkerRuntime) (index id : Nat) (payload : List Byte) (vm : Vm) :
    (noteSubmission env rt index id payload vm).workerTaskGroups = vm.workerTaskGroups := by
  unfold noteSubmission
  split <;> rfl

theorem allocateWorkerTask_ok {index handle : Nat} (h : allocateWorkerTask index vm = .ok handle vm') :
    ∃ vm₁, Aivm.nextTask vm = .ok handle vm₁ ∧ handle = vm₁.nextTaskHandle ∧
      vm' = enterTask (pendingWorkerTask index vm₁.nextTaskHandle) vm₁ := by
  obtain ⟨handle', vm₁, hnext, h⟩ := bind_ok.1 h
  cases h
  obtain ⟨rfl, -, -⟩ := nextTask_ok hnext
  exact ⟨vm₁, hnext, rfl, rfl⟩

/-- The next payload of a group is submitted under the next handle. -/
theorem materializeNext (hc : Proceeds env nested Q) {slot : Nat} {g : WorkerTaskGroup} {payload : List Byte}
    (hg : vm.workerTaskGroups[slot]? = some g) (hpayload : g.payloads[g.nextMaterializeIndex]? = some payload)
    (hzero : g.taskHandles[g.nextMaterializeIndex]? = some 0)
    (h : ((do
      let handle ← allocateWorkerTask g.workerCatalogIndex
      submitWorkerTask env g.workerCatalogIndex handle (some payload) fun status =>
        ⟨status.vmError, "Worker batch materialization failed."⟩
      VmM.modify fun vm => { vm with workerTaskGroups := vm.workerTaskGroups.set slot (g.materialized handle) } :
        VmM Unit) vm).state? = some vm') : Q vm vm' := by
  have hfault : ∀ status : WorkerRuntimeStatus,
      Fault.Regular ⟨status.vmError, "Worker batch materialization failed."⟩ := fun status =>
    .of_head (vmError_ne_none status) (c := 'W') (by simp) (by simp)
  obtain hfail | ⟨handle, vm₁, hallocate, h⟩ := state?_bind h
  · obtain hfail | ⟨_, _, -, hfail⟩ := bind_fail.1 hfail
    · exact hc.nextTask.fail hfail
    · cases hfail
  obtain ⟨vm₂, hnext, rfl, rfl⟩ := allocateWorkerTask_ok hallocate
  have hq := hc.nextTask.ok hnext
  obtain ⟨-, hroom, hsame⟩ := nextTask_ok hnext
  have hgroups : vm₂.workerTaskGroups = vm.workerTaskGroups := by rw [hsame]
  obtain hfail | ⟨_, vm₃, hsubmit, h⟩ := state?_bind h
  · exact hc.chains.trans hq (hc.submitEntered hfault hroom (by rw [hfail]; rfl))
  obtain ⟨rt, rt', hrt, haccepted, rfl⟩ := submitWorkerTask_ok hsubmit
  simp only [modify_run, Outcome.state?, Option.some.injEq] at h
  subst h
  rw [noteSubmission_groups]
  exact hc.chains.trans hq (hc.materialized vm₂ hroom hrt (hgroups ▸ hg) hpayload hzero haccepted)

theorem materializeWorkerTask (hc : Proceeds env nested Q) (slot : Nat) :
    Ends Q (Aivm.materializeWorkerTask env slot) vm := by
  intro vm' h
  obtain hget | ⟨_, _, hget, h⟩ := state?_bind h
  · cases hget
  cases hget
  cases hg : vm.workerTaskGroups[slot]? with
  | none =>
      simp only [hg] at h
      exact (Ends.giveUp (α := Unit) hc.chains) _ h
  | some g =>
      cases hpayload : g.payloads[g.nextMaterializeIndex]? with
      | none =>
          simp only [hg, hpayload] at h
          exact (Ends.giveUp (α := Unit) hc.chains) _ h
      | some payload =>
          cases hzero : g.taskHandles[g.nextMaterializeIndex]? with
          | none =>
              simp only [hg, hpayload, hzero] at h
              exact (Ends.giveUp (α := Unit) hc.chains) _ h
          | some n =>
              cases n with
              | succ n =>
                  simp only [hg, hpayload, hzero] at h
                  exact (Ends.giveUp (α := Unit) hc.chains) _ h
              | zero =>
                  simp only [hg, hpayload, hzero] at h
                  exact hc.materializeNext hg hpayload hzero h

theorem refillGroup (hc : Proceeds env nested Q) (group rounds : Nat) :
    ∀ {vm}, Ends Q (Aivm.refillGroup env group rounds) vm := by
  induction rounds with
  | zero =>
      intro vm
      exact .pure hc.chains ()
  | succ rounds ih =>
      intro vm
      refine .get_bind ?_
      cases vm.workerTaskGroups[group]? with
      | none => exact .pure hc.chains ()
      | some g => exact .ite (fun _ => hc.bind (hc.materializeWorkerTask _) fun _ _ => ih) fun _ => .pure hc.chains ()

theorem refillGroups (hc : Proceeds env nested Q) (groups : List Nat) :
    ∀ {vm}, Ends Q (Aivm.refillGroups env groups) vm := by
  induction groups with
  | nil =>
      intro vm
      exact .pure hc.chains ()
  | cons group groups ih =>
      intro vm
      exact .get_bind (.ite (fun _ => hc.bind (hc.refillGroup _ _) fun _ _ => ih) fun _ => .pure hc.chains ())

theorem refillWorkerTaskGroups (hc : Proceeds env nested Q) : Ends Q (Aivm.refillWorkerTaskGroups env) vm :=
  .get_bind (hc.refillGroups _)

/-! ## Consumption -/

theorem keepTombstone_fail (hc : Proceeds env nested Q) {handle : Nat} (h : keepTombstone handle vm = .fail vm') : Q vm vm' := by
  obtain hget | ⟨_, _, hget, h⟩ := bind_fail.1 h
  · cases hget
  cases hget
  split at h
  · obtain hretain | ⟨_, _, -, h⟩ := bind_fail.1 h
    · obtain hget | ⟨_, _, hget, hretain⟩ := bind_fail.1 hretain
      · cases hget
      cases hget
      split at hretain
      · cases hretain
      split at hretain
      · cases hretain
        exact hc.fault _ (.of_head (by simp) (c := 'T') (by simp) (by simp))
      · cases hretain
    · cases h
  · cases h

/-- A settled task is consumed. -/
theorem releaseConsumedTaskResult (hc : Proceeds env nested Q) {handle : Nat}
    (hset : vm₀.TasksInOrder → vm.Settled handle) (hq : Q vm₀ vm)
    (h : (Aivm.releaseConsumedTaskResult env handle vm).state? = some vm') : Q vm₀ vm' := by
  obtain hfail | ⟨_, vm₁, hkeep, h⟩ := state?_bind h
  · exact hc.chains.trans hq (hc.keepTombstone_fail hfail)
  have hconsumed := hc.consumed vm hset hq hkeep
  obtain hmodify | ⟨_, _, hmodify, h⟩ := state?_bind h
  · cases hmodify
  cases hmodify
  exact ends_trans hc.chains hconsumed (hc.bind hc.refillWorkerTaskGroups fun _ _ => hc.collectSafePoint) h

/-- A task whose result is found is settled. -/
theorem findTerminalTaskResult_book {handle : Nat} {v : Value}
    (h : Aivm.findTerminalTaskResult env nested handle vm = .ok v vm') (ho : vm.TasksInOrder) :
    vm'.Booking (· = handle) fun _ => False := by
  obtain ⟨_, _, hget, h⟩ := bind_ok.1 h
  cases hget
  cases hslot : taskSlot vm handle with
  | none =>
      simp only [hslot] at h
      unfold findTerminalTaskResult.notFound at h
      split at h <;> cases h
  | some slot =>
      obtain ⟨hlt, hfound, -⟩ := List.findIdx?_eq_some_iff_getElem.1 hslot
      have hhandle : (vm.completedTasks.map (·.handle))[slot]? = some handle := by
        simpa [List.getElem?_eq_getElem hlt] using hfound
      -- The task in the slot may have been completed meanwhile, but it is still there.
      have hlast : ∀ {vm₁ : Vm}, vm.Awaited vm₁ → (do
          let vm ← VmM.get
          let t ← VmM.deref vm.completedTasks[slot]?
          if t.state.isTerminal then
            if ← VmM.deref (taskTerminalPayloadIsValid vm t) then
              return t.result
            else
              VmM.throw ⟨.invalidProgram, "Terminal failed/canceled task requires Err node result."⟩
          else
            findTerminalTaskResult.notFound handle vm : VmM Value) vm₁ = .ok v vm' →
          vm'.Booking (· = handle) fun _ => False := by
        intro vm₁ hawaited h
        obtain ⟨_, _, hget, h⟩ := bind_ok.1 h
        cases hget
        obtain ⟨t, vm₂, hderef, h⟩ := bind_ok.1 h
        obtain ⟨ht, rfl⟩ := deref_ok.1 hderef
        split at h
        · rename_i hterminal
          obtain ⟨valid, vm₃, hvalid, hresult⟩ := bind_ok.1 h
          obtain ⟨-, rfl⟩ := deref_ok.1 hvalid
          split at hresult
          · cases hresult
            refine Vm.Booking.of_settled (hawaited.tasksInOrder ho) ht ?_ (by simpa [TaskState.isTerminal] using hterminal)
            have hh : (vm'.completedTasks.map (·.handle))[slot]? = some handle := by rw [hawaited.handles, hhandle]
            simpa [ht] using hh
          · cases hresult
        · unfold findTerminalTaskResult.notFound at h
          split at h <;> cases h
      simp only [hslot] at h
      obtain ⟨t, vm₁, hderef, hrest⟩ := bind_ok.1 h
      obtain ⟨ht, rfl⟩ := deref_ok.1 hderef
      split at hrest
      · rename_i hp
        obtain ⟨_, vm₂, hcomplete, hrest⟩ := bind_ok.1 hrest
        exact hlast ((Vm.Awaited.awaits.completePendingBytecodeTask ht hp).ok hcomplete) hrest
      · exact hlast (Vm.Awaited.chains.refl _) hrest

theorem orFault_ok {f : Fault} {x : VmM α} {a : α} (h : VmM.orFault f x vm = .ok a vm') : x vm = .ok a vm' :=
  onFail_ok.1 h

theorem await (hc : Proceeds env nested Q) : Lands Q (Aivm.await env nested) vm := by
  refine .bind hc.chains hc.stackPop fun v vm₁ _ => ?_
  have hinvalid : Fault.Regular ⟨.invalidProgram, "AWAIT requires valid task handle."⟩ :=
    .of_head (by simp) (c := 'A') (by simp) (by simp)
  cases v with
  | task handle =>
      have hfind : Ends Q (VmM.orFault ⟨.invalidProgram, "AWAIT requires valid task handle."⟩
          (Aivm.findTerminalTaskResult env nested handle)) vm₁ := hc.orFault hinvalid (hc.findTerminalTaskResult _)
      have settled : ∀ {result u vm₂ vm₃}, VmM.orFault ⟨.invalidProgram, "AWAIT requires valid task handle."⟩
          (Aivm.findTerminalTaskResult env nested handle) vm₁ = .ok result vm₂ → Aivm.stackPush result vm₂ = .ok u vm₃ →
          vm₁.TasksInOrder → vm₃.Settled handle := by
        intro result u vm₂ vm₃ hresult hpush ho
        have hbook := findTerminalTaskResult_book (orFault_ok hresult) ho
        exact (hbook.of_untouched ((Vm.Untouched.ordinary.stackPush _).ok hpush)).settledAt rfl
      refine ⟨fun {u vm'} h => ?_, fun {vm'} h => ?_⟩
      · obtain ⟨result, vm₂, hresult, h⟩ := bind_ok.1 h
        obtain ⟨_, vm₃, hpush, h⟩ := bind_ok.1 h
        obtain ⟨_, vm₄, hrelease, h⟩ := bind_ok.1 h
        cases h
        have hq := hc.chains.trans (hfind.ok hresult) ((hc.stackPush result).ok hpush)
        exact ⟨vm₄, hc.releaseConsumedTaskResult (settled hresult hpush) hq
          (by rw [hrelease]; rfl), .next⟩
      · obtain h | ⟨result, vm₂, hresult, h⟩ := bind_fail.1 h
        · exact hfind.fail h
        obtain h | ⟨_, vm₃, hpush, h⟩ := bind_fail.1 h
        · exact hc.chains.trans (hfind.ok hresult) ((hc.stackPush result).fail h)
        have hq := hc.chains.trans (hfind.ok hresult) ((hc.stackPush result).ok hpush)
        obtain h | ⟨_, vm₄, hrelease, h⟩ := bind_fail.1 h
        · exact hc.releaseConsumedTaskResult (settled hresult hpush) hq (by rw [h]; rfl)
        · cases h
  | _ => exact .of_ends (hc.throw hinvalid)

/-! ## Subroutine workers -/

theorem startCallSubroutine (hc : Proceeds env nested Q) (target : Nat) : Ends Q (Aivm.startCallSubroutine env target) vm := by
  refine .get_bind (.ite (fun _ => hc.throw (.of_head (by simp) (c := 'I') (by simp) (by simp))) fun hlt => ?_)
  refine .bind hc.chains (hc.routine _) fun argCount vm₁ h => ?_
  obtain ⟨rfl, hargs⟩ := checkCallTarget_ok h
  refine .bind hc.chains hc.nextTask fun handle vm₂ h => ?_
  obtain ⟨rfl, hroom, hsame⟩ := nextTask_ok h
  have hprogram : vm₂.program = vm₁.program := by rw [hsame]
  have hstack : vm₂.stack = vm₁.stack := by rw [hsame]
  refine .bind hc.chains (hc.allocate (.memory (by simp))) fun _ vm₃ h => ?_
  cases Env.allocate_ok h
  refine .get_bind (.bind hc.chains (.deref hc.chains _) fun w vm₄ h => ?_)
  obtain ⟨hw, rfl⟩ := deref_ok.1 h
  cases henter : enterSubroutine env vm₄ target (vm₄.stack.drop (vm₄.stack.length - argCount)) w with
  | undefined => exact .deref hc.chains none
  | fail worker => exact .throw (hc.workerFault _ _)
  | ok u worker =>
      refine .ite (fun _ => ?_) fun _ => hc.throw (.of_head (by simp) (c := 'A') (by simp) (by simp))
      have htarget : target < instructionCount vm₄ := by
        rw [instructionCount, hprogram]
        exact Nat.lt_of_not_le hlt
      exact .modify_bind hc.chains (hc.started vm₄ hroom htarget (hstack ▸ hargs) hw henter) (.pure hc.chains _)

theorem asyncCall (hc : Proceeds env nested Q) (operand : Int) : Lands Q (Aivm.asyncCall env operand) vm :=
  .bind hc.chains (hc.routine _) fun _ _ _ => .bind hc.chains (hc.startCallSubroutine _) fun _ _ _ =>
    .bind hc.chains (hc.stackPush _) fun _ _ _ => .advance hc.chains

/-! ## Worker instructions -/

theorem workerRef (hc : Proceeds env nested Q) (operand : Int) : Lands Q (Aivm.workerRef env operand) vm :=
  .bind hc.chains (hc.routine _) fun _ _ _ => .get_bind (.ite
    (fun _ => .of_ends (hc.throw (.of_head (by simp) (c := 'W') (by simp) (by simp))))
    fun _ => .bind hc.chains (hc.stackPush _) fun _ _ _ => .advance hc.chains)

/-- Reading a payload leaves the state as it is. -/
theorem readPayload_same {d : BytesPtr} {n : Nat} {data : Option (List Byte)} (h : readPayload d n vm = .ok data vm') :
    vm' = vm := by
  obtain ⟨_, _, hget, h⟩ := bind_ok.1 h
  cases hget
  split at h
  · cases h
    rfl
  · obtain ⟨_, _, hderef, h⟩ := bind_ok.1 h
    cases h
    exact (deref_ok.1 hderef).2

theorem readPayload_never_fails {d : BytesPtr} {n : Nat} : readPayload d n vm ≠ .fail vm' := by
  intro h
  obtain hget | ⟨_, _, hget, h⟩ := bind_fail.1 h
  · cases hget
  cases hget
  split at h
  · cases h
  · obtain h | ⟨_, _, -, h⟩ := bind_fail.1 h
    · cases hb : vm.bytesAt d n <;> simp [VmM.deref, hb] at h
    · cases h

theorem workerRun (hc : Proceeds env nested Q) : Lands Q (Aivm.workerRun env) vm := by
  refine .bind hc.chains hc.stackPop fun payload vm₁ _ => .bind hc.chains hc.stackPop fun ref vm₂ _ => ?_
  have hmismatch : Fault.Regular ⟨.typeMismatch, "WORKER_RUN requires WorkerRef and bytes."⟩ :=
    .of_head (by simp) (c := 'W') (by simp) (by simp)
  have hfault : ∀ status : WorkerRuntimeStatus, Fault.Regular ⟨status.vmError,
      if status = .capability then "Worker capability denied." else "Worker task admission failed."⟩ := by
    intro status
    split
    · exact .of_head (vmError_ne_none status) (c := 'W') (by simp) (by simp)
    · exact .of_head (vmError_ne_none status) (c := 'W') (by simp) (by simp)
  split
  · rename_i index d n
    refine .get_bind (.ite (fun _ => .of_ends (.giveUp hc.chains)) fun _ => ?_)
    refine .bind hc.chains hc.ensureWorkerRuntime fun _ vm₃ _ => ?_
    refine ⟨fun {u vm'} h => ?_, fun {vm'} h => ?_⟩
    · obtain ⟨handle, vm₄, hallocate, h⟩ := bind_ok.1 h
      obtain ⟨vm₅, hnext, rfl, rfl⟩ := allocateWorkerTask_ok hallocate
      obtain ⟨data, vm₆, hdata, h⟩ := bind_ok.1 h
      cases readPayload_same hdata
      obtain ⟨_, vm₇, hsubmit, h⟩ := bind_ok.1 h
      obtain ⟨_, vm₈, hpush, h⟩ := bind_ok.1 h
      cases h
      obtain ⟨-, hroom, -⟩ := nextTask_ok hnext
      have hq := hc.chains.trans (hc.nextTask.ok hnext) (hc.submitEntered hfault hroom (by rw [hsubmit]; rfl))
      exact ⟨vm₈, hc.chains.trans hq ((hc.stackPush _).ok hpush), .next⟩
    · obtain h | ⟨handle, vm₄, hallocate, h⟩ := bind_fail.1 h
      · obtain h | ⟨_, _, -, h⟩ := bind_fail.1 h
        · exact hc.nextTask.fail h
        · cases h
      obtain ⟨vm₅, hnext, rfl, rfl⟩ := allocateWorkerTask_ok hallocate
      obtain ⟨-, hroom, -⟩ := nextTask_ok hnext
      obtain h | ⟨data, vm₆, hdata, h⟩ := bind_fail.1 h
      · exact absurd h readPayload_never_fails
      cases readPayload_same hdata
      obtain h | ⟨_, vm₇, hsubmit, h⟩ := bind_fail.1 h
      · exact hc.chains.trans (hc.nextTask.ok hnext) (hc.submitEntered hfault hroom (by rw [h]; rfl))
      have hq := hc.chains.trans (hc.nextTask.ok hnext) (hc.submitEntered hfault hroom (by rw [hsubmit]; rfl))
      obtain h | ⟨_, vm₈, hpush, h⟩ := bind_fail.1 h
      · exact hc.chains.trans hq ((hc.stackPush _).fail h)
      · cases h
  · exact .of_ends (hc.throw hmismatch)

theorem admitWorkload (hc : Proceeds env nested Q) {index batchLength : Nat} {payloads : List (List Byte)}
    (hne : payloads ≠ []) (hlength : batchLength = batchBytes payloads) :
    Ends Q (Aivm.admitWorkload env index batchLength payloads) vm := by
  subst hlength
  refine .get_bind (.ite (fun _ => hc.throw (.of_head (by simp) (c := 'W') (by simp) (by simp))) fun hlogical => ?_)
  refine .ite (fun _ => hc.throw (.of_head (by simp) (c := 'W') (by simp) (by simp))) fun hgroups => ?_
  refine .ite (fun _ => .giveUp hc.chains) fun _ => .bind hc.chains hc.ensureWorkerRuntime fun _ vm₁ h => ?_
  have hsame := ensureWorkerRuntime_ok h
  have htasks : vm₁.workerLogicalTaskCount = vm.workerLogicalTaskCount := by rw [hsame]
  have hbytes : vm₁.workerLogicalInputBytes = vm.workerLogicalInputBytes := by rw [hsame]
  have htaskLimit : vm₁.workerLogicalTaskLimit = vm.workerLogicalTaskLimit := by rw [hsame]
  have hbyteLimit : vm₁.workerLogicalInputLimit = vm.workerLogicalInputLimit := by rw [hsame]
  have htable : vm₁.workerTaskGroups = vm.workerTaskGroups := by rw [hsame]
  have hnext : vm₁.nextWorkerTaskGroupHandle = vm.nextWorkerTaskGroupHandle := by rw [hsame]
  refine .bind hc.chains (hc.allocate (.of_head (by simp) (c := 'W') (by simp) (by simp))) fun _ vm₂ h => ?_
  cases Env.allocate_ok h
  refine .modify_bind hc.chains (hc.workload vm₁ hne ?_ ?_ ?_ ?_) (.pure hc.chains _)
  · omega
  · omega
  · rw [htable]
    omega
  · rw [hnext]
    exact fun h => hgroups (.inr h)

theorem workerRunAll (hc : Proceeds env nested Q) (operand : Int) : Lands Q (Aivm.workerRunAll env operand) vm := by
  refine .bind hc.chains (hc.routine _) fun version vm₁ _ => ?_
  have hpop : Ends Q (popWorkload version) vm₁ :=
    hc.override (.of_head (by simp) (c := 'W') (by simp) (by simp)) (.ite (fun _ => .giveUp hc.chains) fun _ =>
      hc.bind hc.stackPop fun _ _ => hc.bind hc.stackPop fun _ _ => .pure hc.chains _)
  refine .bind hc.chains hpop fun operands vm₂ _ => ?_
  split
  · refine .get_bind (.bind hc.chains (.deref hc.chains _) fun data vm₃ h => ?_)
    obtain ⟨hdata, rfl⟩ := deref_ok.1 h
    cases hbatch : validateBatch data with
    | error f => exact .of_ends (hc.throw (validateBatch_fault hbatch))
    | ok payloads =>
        have hlength := (Heap.bytesAt_length hdata).symm.trans (validateBatch_length hbatch)
        exact .bind hc.chains (hc.admitWorkload (validateBatch_ne_nil hbatch) hlength) fun _ _ _ =>
          .bind hc.chains hc.refillWorkerTaskGroups fun _ _ _ => .bind hc.chains (hc.stackPush _) fun _ _ _ =>
            .advance hc.chains
  · exact .of_ends (hc.throw (.of_head (by simp) (c := 'W') (by simp) (by simp)))

theorem workerTaskAt (hc : Proceeds env nested Q) : Lands Q Aivm.workerTaskAt vm := by
  have hregular : ∀ {error : VmError} {text : String}, error ≠ .none → text.toList.head? = some 'W' →
      Fault.Regular ⟨error, text⟩ := fun he h => .of_head he h (by simp)
  refine .bind hc.chains hc.stackPop fun index vm₁ _ => .bind hc.chains hc.stackPop fun tasks vm₂ _ => ?_
  split
  · refine .ite (fun _ => .of_ends (hc.throw (hregular (by simp) (by simp)))) fun _ => .get_bind ?_
    split
    · exact .of_ends (hc.throw (hregular (by simp) (by simp)))
    · exact .of_ends (hc.throw (hregular (by simp) (by simp)))
    · exact .bind hc.chains (hc.stackPush _) fun _ _ _ => .advance hc.chains
  · exact .of_ends (hc.throw (hregular (by simp) (by simp)))

theorem cancelSubmission (hc : Proceeds env nested Q) (id : Nat) : Ends Q (Aivm.cancelSubmission env id) vm := by
  refine .get_bind ?_
  cases hrt : vm.workerRuntime with
  | none => exact .pure hc.chains _
  | some rt =>
      cases hfind : rt.tasks.find? fun t => t.submissionId = id with
      | none =>
          simp only [hfind]
          exact .giveUp hc.chains
      | some t =>
          simp only [hfind]
          exact .ite (fun _ => .pure hc.chains _) fun _ => .modify_bind hc.chains (hc.canceled id vm hrt) (.pure hc.chains _)

theorem taskCancel (hc : Proceeds env nested Q) : Lands Q (Aivm.taskCancel env) vm := by
  have hregular : ∀ {error : VmError} {text : String}, error ≠ .none → text.toList.head? = some 'T' →
      Fault.Regular ⟨error, text⟩ := fun he h => .of_head he h (by simp)
  have hpush : ∀ canceled vm, Lands Q (Aivm.stackPush (.bool canceled) >>= fun _ => Aivm.advance) vm := fun _ _ =>
    .bind hc.chains (hc.stackPush _) fun _ _ _ => .advance hc.chains
  refine .bind hc.chains hc.stackPop fun v vm₁ _ => ?_
  cases v with
  | task handle =>
      refine .get_bind ?_
      cases hfind : vm₁.completedTasks.find? fun t => t.handle = handle with
      | none => exact .of_ends (hc.throw (hregular (by simp) (by simp)))
      | some t =>
          exact .ite (fun _ => .bind hc.chains (hc.cancelSubmission _) fun canceled vm₂ _ => hpush canceled vm₂)
            fun _ => .bind hc.chains (.pure hc.chains _) fun canceled vm₂ _ => hpush canceled vm₂
  | _ => exact .of_ends (hc.throw (hregular (by simp) (by simp)))

/-! ## Parallel blocks -/

theorem parBegin (hc : Proceeds env nested Q) (operand : Int) : Lands Q (Aivm.parBegin env operand) vm := by
  refine .bind hc.chains (hc.routine _) fun expectedCount vm₁ _ => .get_bind (.ite (fun _ => ?_) fun hroom => ?_)
  · exact .of_ends (hc.throw (.of_head (by simp) (c := 'P') (by simp) (by simp)))
  · exact .modify_bind hc.chains (hc.openPar expectedCount vm₁ (by omega)) (.advance hc.chains)

theorem parFork (hc : Proceeds env nested Q) : Lands Q Aivm.parFork vm := by
  refine .get_bind (.ite (fun _ => .of_ends (hc.throw (.of_head (by simp) (c := 'P') (by simp) (by simp)))) fun hopen => ?_)
  refine .ite (fun _ => .of_ends (hc.throw (.of_head (by simp) (c := 'P') (by simp) (by simp)))) fun hroom => ?_
  refine .bind hc.chains hc.stackPop fun v vm₁ h => ?_
  obtain ⟨-, rfl⟩ := stackPop_ok h
  exact .modify_bind hc.chains (hc.addPar v _ hopen (Nat.lt_of_not_le fun hle => hroom (Nat.lt_succ_of_le hle)))
    (.advance hc.chains)

theorem joinedValue (hc : Awaits env nested Q) (v : Value) : Ends Q (Aivm.joinedValue env nested v) vm := by
  unfold Aivm.joinedValue
  split
  · refine hc.bind (hc.attempt (hc.findTerminalTaskResult _)) fun result vm₁ => ?_
    split <;> exact .pure hc.chains _
  · exact .pure hc.chains _

theorem joinValues (hc : Awaits env nested Q) (start remaining : Nat) :
    ∀ {i vm}, Ends Q (Aivm.joinValues env nested start remaining i) vm := by
  induction remaining with
  | zero =>
      intro i vm
      exact .pure hc.chains _
  | succ remaining ih =>
      intro i vm
      refine .get_bind ?_
      cases vm.parValues[start + i]? with
      | none => exact hc.throw (.of_head (by simp) (c := 'P') (by simp) (by simp))
      | some v =>
          exact hc.bind (joinedValue hc _) fun _ _ => hc.bind (hc.routine _) fun _ _ => hc.bind ih fun _ _ =>
            .pure hc.chains _

/-- Every task that has been joined is settled. -/
theorem joinValues_book {start remaining : Nat} : ∀ {i vm vm' joined},
    Aivm.joinValues env nested start remaining i vm = .ok joined vm' → vm.TasksInOrder →
    vm'.Booking (· ∈ joined.2) fun _ => False := by
  induction remaining with
  | zero =>
      intro i vm vm' joined h ho
      cases h
      exact (Vm.Booking.of_inOrder ho).mono (fun _ hm => by simp at hm) fun _ hg => hg
  | succ remaining ih =>
      intro i vm vm' joined h ho
      obtain ⟨_, _, hget, h⟩ := bind_ok.1 h
      cases hget
      cases hv : vm.parValues[start + i]? with
      | none =>
          simp only [hv] at h
          cases h
      | some v =>
          simp only [hv] at h
          obtain ⟨first, vm₁, hfirst, h⟩ := bind_ok.1 h
          obtain ⟨child, vm₂, hchild, h⟩ := bind_ok.1 h
          obtain ⟨rest, vm₃, hrest, h⟩ := bind_ok.1 h
          cases h
          have hawaited₁ : vm.Awaited vm₁ := (joinedValue Vm.Awaited.awaits v).ok hfirst
          have hawaits : Awaits env nested Vm.Awaited := Vm.Awaited.awaits
          have hawaited₂ : vm₁.Awaited vm₂ := (hawaits.routine _).ok hchild
          have hbook : vm₁.Booking (· ∈ first.2) fun _ => False := by
            unfold Aivm.joinedValue at hfirst
            split at hfirst
            · rename_i task
              obtain ⟨result, vm₄, hattempt, hfirst⟩ := bind_ok.1 hfirst
              unfold VmM.attempt at hattempt
              split at hattempt
              · rename_i r vm₅ hfind
                cases hattempt
                cases hfirst
                exact (findTerminalTaskResult_book hfind ho).mono (fun _ hm => List.mem_singleton.1 hm) fun _ hg => hg
              · cases hattempt
                cases hfirst
                exact (Vm.Booking.of_inOrder (hawaited₁.tasksInOrder ho)).mono (fun _ hm => by simp at hm) fun _ hg => hg
              · cases hattempt
            · cases hfirst
              exact (Vm.Booking.of_inOrder ho).mono (fun _ hm => by simp at hm) fun _ hg => hg
          -- A settled task stays so while the others are joined.
          have hkeeps : Awaits env nested (Keeping (Vm.Booking (· ∈ first.2) fun _ => False)) :=
            Vm.Booking.proceeds.toAwaits
          have hfirst₃ := (joinValues hkeeps _ _).ok hrest ((hkeeps.routine _).ok hchild hbook)
          have hrest₃ := ih hrest (hawaited₂.tasksInOrder (hawaited₁.tasksInOrder ho))
          exact (hfirst₃.or hrest₃).mono (fun _ hm => List.mem_append.1 hm) fun _ hg => hg

theorem releaseJoined (hc : Proceeds env nested Q) {handles : List Nat} : ∀ {vm vm'},
    (vm₀.TasksInOrder → vm.Booking (· ∈ handles) fun _ => False) → Q vm₀ vm →
    (Aivm.releaseJoined env handles vm).state? = some vm' → Q vm₀ vm' := by
  induction handles with
  | nil =>
      intro vm vm' _ hq h
      simp only [Aivm.releaseJoined, pure_run, Outcome.state?, Option.some.injEq] at h
      exact h ▸ hq
  | cons handle handles ih =>
      intro vm vm' hbook hq h
      have hset : vm₀.TasksInOrder → vm.Settled handle := fun ho => (hbook ho).settledAt (List.mem_cons_self ..)
      obtain hfail | ⟨_, vm₁, hrelease, h⟩ := state?_bind h
      · exact hc.releaseConsumedTaskResult hset hq (by rw [hfail]; rfl)
      · refine ih (fun ho => ?_) (hc.releaseConsumedTaskResult hset hq (by rw [hrelease]; rfl)) h
        have hkeeps : Proceeds env nested (Keeping (Vm.Booking (· ∈ handle :: handles) fun _ => False)) := Vm.Booking.proceeds
        have hbook₁ : vm₁.Booking (· ∈ handle :: handles) fun _ => False :=
          hkeeps.releaseConsumedTaskResult (fun _ => hset ho) (fun h => h) (by rw [hrelease]; rfl) (hbook ho)
        exact hbook₁.mono (fun _ hm => List.mem_cons_of_mem _ hm) fun _ hg => hg

theorem createParBlock (hc : Ordinary Q) (children : List Nat) : Ends Q (Aivm.createParBlock env children) vm :=
  .get_bind (hc.modify_bind ⟨rfl, Nat.le_refl _⟩ (hc.routine _))

theorem closeParContext (hc : Proceeds env nested Q) {context : ParContext} (block : Nat)
    (hlast : vm.parContexts.getLast? = some context) : Ends Q (Aivm.closePar context.startIndex block) vm :=
  .modify_bind hc.chains (hc.closePar vm hlast) (hc.stackPush _)

theorem parJoin (hc : Proceeds env nested Q) (operand : Int) : Lands Q (Aivm.parJoin env nested operand) vm := by
  have hregular : ∀ {text : String}, text.toList.head? = some 'P' → Fault.Regular ⟨.invalidProgram, text⟩ := fun h =>
    .of_head (by simp) h (by simp)
  refine .bind hc.chains (hc.routine _) fun joinCount vm₁ _ => .get_bind ?_
  cases hlast : vm₁.parContexts.getLast? with
  | none => exact .of_ends (hc.throw (hregular (by simp)))
  | some context =>
      refine .ite (fun _ => .of_ends (hc.throw (hregular (by simp)))) fun _ =>
        .ite (fun _ => .of_ends (hc.throw (hregular (by simp)))) fun _ => ?_
      have hjoin : Ends Q (Aivm.joinValues env nested context.startIndex joinCount 0) vm₁ := joinValues hc.toAwaits _ _
      have hcontexts : ∀ {joined vm₂ block vm₃}, Aivm.joinValues env nested context.startIndex joinCount 0 vm₁ = .ok joined vm₂ →
          Aivm.createParBlock env joined.1 vm₂ = .ok block vm₃ → vm₃.parContexts.getLast? = some context := by
        intro joined vm₂ block vm₃ hjoined hblock
        have h₂ : vm₁.Awaited vm₂ := (joinValues Vm.Awaited.awaits _ _).ok hjoined
        have h₃ : vm₂.Awaited vm₃ := .of_untouched ((createParBlock Vm.Untouched.ordinary _).ok hblock)
        rw [h₃.parContexts, h₂.parContexts, hlast]
      -- The tasks that have been joined are consumed once the block has been pushed, and are settled till then.
      have hbook : ∀ {joined vm₂ block vm₃ u vm₄},
          Aivm.joinValues env nested context.startIndex joinCount 0 vm₁ = .ok joined vm₂ →
          Aivm.createParBlock env joined.1 vm₂ = .ok block vm₃ → Aivm.closePar context.startIndex block vm₃ = .ok u vm₄ →
          vm₁.TasksInOrder → vm₄.Booking (· ∈ joined.2) fun _ => False := by
        intro joined vm₂ block vm₃ u vm₄ hjoined hblock hclose ho
        have hkeeps : Proceeds env nested (Keeping (Vm.Booking (· ∈ joined.2) fun _ => False)) := Vm.Booking.proceeds
        have hbook₃ := (createParBlock hkeeps.toOrdinary _).ok hblock (joinValues_book hjoined ho)
        exact (closeParContext hkeeps block (hcontexts hjoined hblock)).ok hclose hbook₃
      refine ⟨fun {u vm'} h => ?_, fun {vm'} h => ?_⟩
      · obtain ⟨joined, vm₂, hjoined, h⟩ := bind_ok.1 h
        obtain ⟨_, _, hget, h⟩ := bind_ok.1 h
        cases hget
        split at h
        · cases h
        obtain ⟨block, vm₃, hblock, h⟩ := bind_ok.1 h
        obtain ⟨_, vm₄, hclose, h⟩ := bind_ok.1 h
        obtain ⟨_, vm₅, hrelease, h⟩ := bind_ok.1 h
        cases h
        have hq := hc.chains.trans (hc.chains.trans (hjoin.ok hjoined) ((createParBlock hc.toOrdinary _).ok hblock))
          ((closeParContext hc block (hcontexts hjoined hblock)).ok hclose)
        exact ⟨vm₅, releaseJoined hc (hbook hjoined hblock hclose) hq (by rw [hrelease]; rfl), .next⟩
      · obtain h | ⟨joined, vm₂, hjoined, h⟩ := bind_fail.1 h
        · exact hjoin.fail h
        obtain hget | ⟨_, _, hget, h⟩ := bind_fail.1 h
        · cases hget
        cases hget
        split at h
        · cases h
          exact hjoin.ok hjoined
        obtain h | ⟨block, vm₃, hblock, h⟩ := bind_fail.1 h
        · exact hc.chains.trans (hjoin.ok hjoined) ((createParBlock hc.toOrdinary _).fail h)
        have hq := hc.chains.trans (hjoin.ok hjoined) ((createParBlock hc.toOrdinary _).ok hblock)
        obtain h | ⟨_, vm₄, hclose, h⟩ := bind_fail.1 h
        · exact hc.chains.trans hq ((closeParContext hc block (hcontexts hjoined hblock)).fail h)
        have hq := hc.chains.trans hq ((closeParContext hc block (hcontexts hjoined hblock)).ok hclose)
        obtain h | ⟨_, vm₅, -, h⟩ := bind_fail.1 h
        · exact releaseJoined hc (hbook hjoined hblock hclose) hq (by rw [h]; rfl)
        · cases h

/-! ## System calls -/

theorem dispatchSyscall (hc : Proceeds env nested Q) (s : Syscall) : Ends Q (Aivm.dispatchSyscall env s) vm := by
  refine .get_bind ?_
  unfold dispatchChecked
  cases hcontract : contractValidate s.target s.args with
  | error status => exact hc.routine _
  | ok expected =>
      by_cases hallowed : policyAllows vm.syscallPolicy (contractCapability s.target) = true
      · cases hhandler : findHandler vm.syscallBindings s.target with
        | none =>
            simp only [hallowed, not_true_eq_false, if_false]
            exact hc.routine _
        | some handler =>
            simp only [hallowed, not_true_eq_false, if_false]
            exact .modify_bind hc.chains (hc.handled vm hcontract hallowed hhandler) (hc.routine _)
      · simp only [hallowed]
        exact hc.routine _

theorem callSysWithArity (hc : Proceeds env nested Q) (argCount : Nat) : Ends Q (Aivm.callSysWithArity env argCount) vm :=
  hc.bind (hc.routine _) fun _ _ => .ite (fun _ => hc.routine _) fun _ => hc.dispatchSyscall _

theorem callSys (hc : Proceeds env nested Q) (operand : Int) : Lands Q (Aivm.callSys env operand) vm := by
  refine .bind hc.chains (hc.routine _) fun argCount vm₁ _ =>
    .bind hc.chains (hc.attempt (hc.callSysWithArity _)) fun result vm₂ _ => ?_
  cases result with
  | some v => exact .bind hc.chains (hc.stackPush _) fun _ _ _ => .advance hc.chains
  | none => exact .of_ends (.pure hc.chains ())

theorem asyncCallSys (hc : Proceeds env nested Q) (operand : Int) : Lands Q (Aivm.asyncCallSys env operand) vm := by
  refine .bind hc.chains (hc.routine _) fun argCount vm₁ _ =>
    .bind hc.chains (hc.attempt (hc.callSysWithArity _)) fun result vm₂ _ => ?_
  cases result with
  | some v => exact .bind hc.chains (hc.pushCompletedTask _) fun _ _ _ => .advance hc.chains
  | none => exact .of_ends (.pure hc.chains ())

theorem ordinary (hc : Proceeds env nested Q) (r : Routine env Unit) : Lands Q (Aivm.ordinary env r) vm :=
  .bind hc.chains (hc.routine r) fun _ _ _ => .advance hc.chains

/-- Every other instruction makes admitted changes and then moves on, or fails among them. -/
theorem execute (hc : Proceeds env nested Q) (i : Instruction) (hip : vm.instructionPointer < instructionCount vm)
    (hrunning : vm.status = .running) (hreturns : i.returns = false) : Lands Q (Aivm.execute env nested i) vm := by
  unfold Aivm.execute
  cases hop : i.opcode with
  | nop => exact .advance hc.chains
  | halt => exact .move hc.chains (.halt (by simp [hrunning]))
  | stub => exact .of_ends (.modify (hc.fault vm (.of_head (by simp) (c := 'S') (by simp) (by simp))))
  | jump => exact hc.jump _
  | jumpIfFalse => exact hc.jumpIfFalse _
  | call => exact hc.call _ hip
  | ret => simp [Instruction.returns, hop] at hreturns
  | return_ => simp [Instruction.returns, hop] at hreturns
  | callSys => exact hc.callSys _
  | asyncCall => exact hc.asyncCall _
  | asyncCallSys => exact hc.asyncCallSys _
  | await => exact hc.await
  | parBegin => exact hc.parBegin _
  | parFork => exact hc.parFork
  | parJoin => exact hc.parJoin _
  | parCancel => exact .advance hc.chains
  | workerRef => exact hc.workerRef _
  | workerRun => exact hc.workerRun
  | taskCancel => exact hc.taskCancel
  | workerRunAll => exact hc.workerRunAll _
  | workerTaskAt => exact hc.workerTaskAt
  | _ => exact hc.ordinary _

end Proceeds

theorem Storing.returnSafePoint {env : Env} {Q : Vm → Vm → Prop} {vm : Vm} (hc : Storing Q) :
    Ends Q (Aivm.returnSafePoint env) vm := by
  refine .get_bind (.ite (fun _ => ?_) fun _ => ?_)
  · refine .modify_bind hc.chains (hc.growNodeArenas _ _ _ vm) ?_
    exact .ite (fun _ => hc.collectSafePointInternal _ _) fun _ => .pure hc.chains ()
  · exact .ite (fun _ => hc.collectSafePointInternal _ _) fun _ => .pure hc.chains ()

namespace Admits

variable {env : Env} {nested : Vm → Option Vm} {Q : Vm → Vm → Prop} {vm vm' vm₀ : Vm} {α : Type}

/-! ## Returns -/

theorem validateFrameRecord_regular (frame : CallFrame) (opName : String) (vm : Vm) :
    Ends (fun vm vm' => vm' = vm ∧ frame.fits vm ∨ ∃ f : Fault, f.Regular ∧ vm' = setVmError f vm)
      (validateFrameRecord frame opName) vm := by
  intro vm' h
  unfold validateFrameRecord at h
  split at h
  · rename_i hfits
    simp only [Outcome.state?, Option.some.injEq] at h
    exact .inl ⟨h.symm, hfits⟩
  · simp only [Outcome.state?, Option.some.injEq] at h
    exact .inr ⟨_, by simp [Fault.Regular, machineDiagnostics, toString], h.symm⟩

theorem framePop_ok {frame : CallFrame} (h : Aivm.framePop vm = .ok frame vm') :
    vm.callFrames.getLast? = some frame ∧ frame.fits vm ∧ vm' = { vm with callFrames := vm.callFrames.dropLast } := by
  obtain ⟨_, vm₁, hvalidate, hpop⟩ := bind_ok.1 h
  obtain ⟨rfl, -, hfits⟩ := validateCallLocalState_ok hvalidate
  obtain ⟨_, _, hget, hpop⟩ := bind_ok.1 hpop
  cases hget
  cases hlast : vm₁.callFrames.getLast? with
  | none =>
      rw [hlast] at hpop
      cases hpop
  | some f =>
      rw [hlast] at hpop
      obtain ⟨_, _, hmodify, hpop⟩ := bind_ok.1 hpop
      cases hmodify
      obtain ⟨_, _, hrecord, hpop⟩ := bind_ok.1 hpop
      cases hpop
      unfold validateFrameRecord at hrecord
      split at hrecord
      · cases hrecord
        exact ⟨rfl, hfits _ hlast, rfl⟩
      · cases hrecord

theorem framePop_fail (hc : Admits env nested Q) (h : Aivm.framePop vm = .fail vm') : Q vm vm' := by
  obtain h | ⟨_, vm₁, hvalidate, hpop⟩ := bind_fail.1 h
  · exact (hc.validate _ vm).fail h
  obtain ⟨rfl, -, -⟩ := validateCallLocalState_ok hvalidate
  cases hlast : vm₁.callFrames.getLast? with
  | none =>
      obtain hget | ⟨_, _, hget, hpop⟩ := bind_fail.1 hpop
      · cases hget
      cases hget
      rw [hlast] at hpop
      cases hpop
      exact hc.fault _ (.of_head (by simp) (c := 'C') (by simp) (by simp))
  | some f =>
      obtain hget | ⟨_, _, hget, hpop⟩ := bind_fail.1 hpop
      · cases hget
      cases hget
      rw [hlast] at hpop
      have hpopped := hc.popFrame vm₁ (by simp [← List.getLast?_eq_none_iff, hlast])
      obtain hmodify | ⟨_, _, hmodify, hpop⟩ := bind_fail.1 hpop
      · cases hmodify
      cases hmodify
      obtain hrecord | ⟨_, _, -, hpop⟩ := bind_fail.1 hpop
      · obtain ⟨-, hfits⟩ | ⟨f, hf, rfl⟩ := (validateFrameRecord_regular _ _ _).fail hrecord
        · unfold validateFrameRecord at hrecord
          rw [if_pos hfits] at hrecord
          cases hrecord
        · exact hc.chains.trans hpopped (hc.fault _ hf)
      · cases hpop

/-- A frame is left together with its record; only a return that is refused leaves the record alone. -/
theorem restoreFrame (hc : Admits env nested Q) {frame : CallFrame} (hlast : vm.callFrames.getLast? = some frame)
    (hfits : frame.fits vm)
    (h : (Aivm.restoreFrame frame { vm with callFrames := vm.callFrames.dropLast }).state? = some vm') : Q vm vm' := by
  have hpopped := hc.popFrame vm (by simp [← List.getLast?_eq_none_iff, hlast])
  have hrecorded : ∀ (vm : Vm) count result, Q vm (recordRecentReturn frame count result vm) := fun _ _ _ =>
    hc.quiet ⟨rfl, Nat.le_refl _⟩
  obtain hget | ⟨_, _, hget, h⟩ := state?_bind h
  · cases hget
  cases hget
  split at h
  · exact ends_trans hc.chains hpopped (hc.throw (.of_head (by simp) (c := 'R') (by simp) (by simp))) h
  split at h
  · exact ends_trans hc.chains hpopped (hc.throw (.of_head (by simp) (c := 'C') (by simp) (by simp))) h
  dsimp only at h
  obtain hvalidate | ⟨_, vm₁, hvalidate, h⟩ := state?_bind h
  · exact hc.chains.trans hpopped ((hc.validateReturn _ _ _).fail hvalidate)
  have hsame : vm₁ = { vm with callFrames := vm.callFrames.dropLast } := by
    unfold validateVmReturnRestore at hvalidate
    split at hvalidate
    · cases hvalidate
    split at hvalidate
    · cases hvalidate
    · cases hvalidate
      rfl
  subst hsame
  obtain hmodify | ⟨_, _, hmodify, h⟩ := state?_bind h
  · cases hmodify
  cases hmodify
  have hleft := hc.leave vm hlast hfits
  cases hresult : (if frame.frameBase < vm.stack.length then vm.stack.getLast? else none) with
  | none =>
      simp only [hresult] at h
      exact ends_trans hc.chains hleft (.modify (hrecorded _ _ _)) h
  | some v =>
      simp only [hresult] at h
      exact ends_trans hc.chains hleft (hc.bind (hc.stackPush v) fun _ vm₂ => .modify (hrecorded vm₂ _ _)) h

/-- A frame that has been left held a return address. -/
theorem restoreFrame_ok {frame : CallFrame} {u} (h : Aivm.restoreFrame frame vm = .ok u vm') :
    frame.returnInstructionPointer ≤ instructionCount vm ∧ vm'.program = vm.program := by
  obtain ⟨_, _, hget, h⟩ := bind_ok.1 h
  cases hget
  split at h
  · cases h
  rename_i hle
  split at h
  · cases h
  obtain ⟨_, vm₁, hvalidate, h⟩ := bind_ok.1 h
  have hsame : vm₁ = vm := by
    unfold validateVmReturnRestore at hvalidate
    split at hvalidate
    · cases hvalidate
    split at hvalidate
    · cases hvalidate
    · cases hvalidate
      rfl
  subst hsame
  refine ⟨Nat.le_of_not_lt hle, ?_⟩
  obtain ⟨_, _, hmodify, h⟩ := bind_ok.1 h
  cases hmodify
  cases hresult : (if frame.frameBase < vm₁.stack.length then vm₁.stack.getLast? else none) with
  | none =>
      simp only [hresult] at h
      cases h
      rfl
  | some v =>
      simp only [hresult] at h
      obtain ⟨_, vm₂, hpush, h⟩ := bind_ok.1 h
      cases h
      exact (Vm.Untouched.ordinary.stackPush v |>.ok hpush).program

theorem ret (hc : Admits env nested Q) (hne : vm.status ≠ .error) : Lands Q (Aivm.ret env) vm := by
  refine .get_bind (.ite (fun _ => .move hc.chains (.halt hne)) fun _ => ?_)
  refine ⟨fun {u vm'} h => ?_, fun {vm'} h => ?_⟩
  · obtain ⟨frame, vm₁, hpop, h⟩ := bind_ok.1 h
    obtain ⟨hlast, hfits, rfl⟩ := framePop_ok hpop
    obtain ⟨_, vm₂, hrestore, h⟩ := bind_ok.1 h
    obtain ⟨_, vm₃, hsafe, h⟩ := bind_ok.1 h
    cases h
    have hq := hc.restoreFrame hlast hfits (by rw [hrestore]; rfl)
    obtain ⟨hle, hprogram⟩ := restoreFrame_ok hrestore
    refine ⟨vm₃, hc.chains.trans hq (hc.returnSafePoint.ok hsafe), .goTo ?_⟩
    rw [instructionCount, (Vm.Untouched.ordinary.returnSafePoint.ok hsafe).program, hprogram]
    exact hle
  · obtain h | ⟨frame, vm₁, hpop, h⟩ := bind_fail.1 h
    · exact hc.framePop_fail h
    obtain ⟨hlast, hfits, rfl⟩ := framePop_ok hpop
    obtain h | ⟨_, vm₂, hrestore, h⟩ := bind_fail.1 h
    · exact hc.restoreFrame hlast hfits (by rw [h]; rfl)
    have hq := hc.restoreFrame hlast hfits (by rw [hrestore]; rfl)
    obtain h | ⟨_, _, -, h⟩ := bind_fail.1 h
    · exact hc.chains.trans hq (hc.returnSafePoint.fail h)
    · cases h

/-! ## All instructions -/

/-- Every instruction makes admitted changes and then moves on, or fails among them. -/
theorem execute (hc : Admits env nested Q) (i : Instruction) (hip : vm.instructionPointer < instructionCount vm)
    (hrunning : vm.status = .running) : Lands Q (Aivm.execute env nested i) vm := by
  have hne : vm.status ≠ .error := by simp [hrunning]
  cases hop : i.opcode with
  | ret =>
      unfold Aivm.execute
      simp only [hop]
      exact hc.ret hne
  | return_ =>
      unfold Aivm.execute
      simp only [hop]
      exact hc.ret hne
  | _ => exact hc.toProceeds.execute i hip hrunning (by simp [Instruction.returns, hop])

end Admits

end Aivm
