import Aivm.Machine.Step
import Aivm.Machine.Lemmas.Closed

/-!
# What an instruction does to texts and nodes

A relation that admits what the stores do to texts and nodes holds between the states before and after every
instruction.
-/

namespace Aivm

open VmM

namespace Closed

variable {env : Env} {Q : Vm → Vm → Prop} {vm vm' : Vm} {α : Type}

/-! ## Stack, frames and locals -/

theorem stackPush (hc : Closed env Q) (v : Value) : Ends Q (Aivm.stackPush v) vm := by
  intro vm' h
  unfold Aivm.stackPush at h
  by_cases hroom : vm.stack.length + 1 ≤ (ensureStackCapacity (vm.stack.length + 1) vm).stackLimit
  · simp only [hroom, if_true, Outcome.state?, Option.some.injEq] at h
    subst h
    exact hc.same ⟨rfl, rfl, rfl, rfl, rfl⟩
  · simp only [hroom, if_false, Outcome.state?, Option.some.injEq] at h
    subst h
    exact hc.same ⟨rfl, rfl, rfl, rfl, rfl⟩

theorem stackPop (hc : Closed env Q) : Ends Q Aivm.stackPop vm := by
  intro vm' h
  unfold Aivm.stackPop at h
  split at h
  · simp only [Outcome.state?, Option.some.injEq] at h
    exact h ▸ hc.setVmError _ vm
  · simp only [Outcome.state?, Option.some.injEq] at h
    subst h
    exact hc.same ⟨rfl, rfl, rfl, rfl, rfl⟩

/-- A check only sets an error. -/
theorem check (hc : Closed env Q) {x : VmM α} (h : ∀ vm, (∃ a, x vm = .ok a vm) ∨ ∃ f, x vm = .fail (VmM.setVmError f vm)) :
    Ends Q x vm := by
  intro vm' hx
  obtain ⟨a, ha⟩ | ⟨f, hf⟩ := h vm
  · simp only [ha, Outcome.state?, Option.some.injEq] at hx
    exact hx ▸ hc.chains.refl vm
  · simp only [hf, Outcome.state?, Option.some.injEq] at hx
    exact hx ▸ hc.setVmError f vm

theorem validateCallLocalState (hc : Closed env Q) (opName : String) : Ends Q (Aivm.validateCallLocalState opName) vm := by
  refine hc.check fun vm => ?_
  unfold Aivm.validateCallLocalState
  split
  · exact .inr ⟨_, rfl⟩
  split
  · split
    · exact .inr ⟨_, rfl⟩
    split
    · exact .inr ⟨_, rfl⟩
    · exact .inl ⟨(), rfl⟩
  · exact .inl ⟨(), rfl⟩

theorem validateFrameRecord (hc : Closed env Q) (frame : CallFrame) (opName : String) :
    Ends Q (Aivm.validateFrameRecord frame opName) vm := by
  refine hc.check fun vm => ?_
  unfold Aivm.validateFrameRecord
  split
  · exact .inl ⟨(), rfl⟩
  · exact .inr ⟨_, rfl⟩

theorem validateVmReturnRestore (hc : Closed env Q) (frame : CallFrame) (count : Nat) :
    Ends Q (Aivm.validateVmReturnRestore frame count) vm := by
  refine hc.check fun vm => ?_
  unfold Aivm.validateVmReturnRestore
  split
  · exact .inr ⟨_, rfl⟩
  split
  · exact .inr ⟨_, rfl⟩
  · exact .inl ⟨(), rfl⟩

theorem framePush (hc : Closed env Q) (ip frameBase : Nat) : Ends Q (Aivm.framePush ip frameBase) vm := by
  refine hc.bind (hc.validateCallLocalState _) fun _ vm₁ => .get_bind (.ite (fun _ => hc.throw_bind _ _) fun _ => ?_)
  refine hc.modify_bind ⟨rfl, rfl, rfl, rfl, rfl⟩ (.get_bind (.ite (fun _ => hc.throw_bind _ _) fun _ => ?_))
  exact hc.modify ⟨rfl, rfl, rfl, rfl, rfl⟩

theorem framePop (hc : Closed env Q) : Ends Q Aivm.framePop vm := by
  refine hc.bind (hc.validateCallLocalState _) fun _ vm₁ => .get_bind ?_
  split
  · exact hc.throw _
  · refine hc.modify_bind ⟨rfl, rfl, rfl, rfl, rfl⟩ (hc.bind (hc.validateFrameRecord _ _) fun _ _ => ?_)
    exact .pure hc.chains _

theorem localSet (hc : Closed env Q) (index : Nat) (v : Value) : Ends Q (Aivm.localSet index v) vm := by
  refine hc.bind (hc.validateCallLocalState _) fun _ vm₁ => .get_bind (.ite (fun _ => hc.throw_bind _ _) fun _ => ?_)
  refine hc.modify_bind ⟨rfl, rfl, rfl, rfl, rfl⟩ (.get_bind (.ite (fun _ => hc.throw_bind _ _) fun _ => hc.modify ?_))
  unfold writeLocal
  split <;> exact ⟨rfl, rfl, rfl, rfl, rfl⟩

/-! ## Ordinary instructions -/

theorem claim (hc : Closed env Q) (what : String) : Ends Q (VmM.claim env what) vm := by
  intro vm' h
  unfold VmM.claim at h
  split at h
  · simp only [Outcome.state?, Option.some.injEq] at h
    exact h ▸ hc.chains.refl vm
  · simp only [Outcome.state?, Option.some.injEq] at h
    exact h ▸ hc.chains.refl vm

theorem orFault (hc : Closed env Q) {f : Fault} {x : VmM α} (hx : Ends Q x vm) : Ends Q (VmM.orFault f x) vm := by
  refine hc.onFail hx fun vm => ?_
  split <;> exact ⟨rfl, rfl, rfl, rfl, rfl⟩

theorem override (hc : Closed env Q) {f : Fault} {x : VmM α} (hx : Ends Q x vm) : Ends Q (VmM.override f x) vm :=
  hc.onFail hx fun _ => ⟨rfl, rfl, rfl, rfl, rfl⟩

theorem pushConstant (hc : Closed env Q) (index : Nat) : Ends Q (VmM.pushConstant index) vm := by
  refine .get_bind ?_
  split
  · exact hc.throw _
  · exact hc.stackPush _

theorem loadLocal (hc : Closed env Q) (index : Nat) : Ends Q (VmM.loadLocal index) vm := by
  refine .get_bind ?_
  split
  · exact hc.throw _
  · exact hc.stackPush _

theorem storePair (hc : Closed env Q) : Ends Q VmM.storePair vm :=
  hc.bind hc.stackPop fun _ _ => hc.bind hc.stackPop fun _ _ => hc.bind (hc.createScratchPair _ _) fun _ _ =>
    hc.stackPush _

theorem loadPair (hc : Closed env Q) (handle : Nat) (component : ScratchPair → Value) :
    Ends Q (VmM.loadPair handle component) vm := by
  refine .get_bind ?_
  split
  · exact .giveUp hc.chains
  · exact hc.stackPush _

theorem copyRange (hc : Closed env Q) (p : StrPtr) (length : Nat) : Ends Q (VmM.copyRange env p length) vm := by
  refine .get_bind (hc.deref_cstr fun text htext => ?_)
  have ht : (0 : Byte) ∉ text.take length := fun hm => zero_notMem_of_cstr htext (List.mem_of_mem_take hm)
  exact .ite (fun _ => hc.bind (hc.claim _) fun _ _ => hc.copyStringRangeToArena ht) fun _ => hc.copyStringRangeToArena ht

theorem copySplice (hc : Closed env Q) (p : StrPtr) (m : Nat) (q : StrPtr) (n : Nat) :
    Ends Q (VmM.copySplice env p m q n) vm := by
  refine .get_bind (hc.deref_cstr fun first hfirst => hc.deref_cstr fun second hsecond => ?_)
  have ht : (0 : Byte) ∉ first.take m ++ second.take n := splice_clean hfirst hsecond
  have hlast : ∀ vm, Ends Q (Aivm.copyStringSpliceToArena env (first.take m ++ second.take n)) vm := fun _ =>
    hc.copyStringSpliceToArena ht
  refine .ite (fun _ => .ite (fun _ => hc.bind (hc.claim _) fun _ vm₁ => ?_) fun _ => ?_) fun _ => hlast vm
  · exact .ite (fun _ => hc.bind (hc.claim _) fun _ => hlast) fun _ => hlast vm₁
  · exact .ite (fun _ => hc.bind (hc.claim _) fun _ => hlast) fun _ => hlast vm

/-- What an ordinary instruction is built from stays within the relation, and so does the instruction. -/
theorem built (hc : Closed env Q) {x : VmM α} (h : Built env x) : ∀ {vm}, Ends Q x vm := by
  induction h with
  | pure a => exact .pure hc.chains a
  | bind _ _ hx hf => exact hc.bind hx fun a _ => hf a
  | look => exact .get_bind (.pure hc.chains _)
  | deref x => exact .deref hc.chains x
  | throw _ => exact hc.throw _
  | giveUp => exact .giveUp hc.chains
  | orFault _ _ hx => exact hc.orFault hx
  | override _ _ hx => exact hc.override hx
  | claim what => exact hc.claim what
  | pop => exact hc.stackPop
  | push _ => exact hc.stackPush _
  | pushConstant index => exact hc.pushConstant index
  | storeLocal index => exact hc.bind hc.stackPop fun _ _ => hc.localSet _ _
  | loadLocal index => exact hc.loadLocal index
  | storePair => exact hc.storePair
  | loadFirst handle => exact hc.loadPair handle _
  | loadSecond handle => exact hc.loadPair handle _
  | safePoint => exact hc.collectSafePoint
  | createNode kind id attrs children => exact hc.createNodeRecord kind id attrs children
  | copyString p => exact hc.copyStringToArena p
  | copyRange p length => exact hc.copyRange p length
  | copySplice p m q n => exact hc.copySplice p m q n
  | allocString text => exact hc.stringArenaAlloc text
  | allocBytes data => exact hc.bytesArenaAlloc data
  | admitGrowth growth => exact hc.admitHostMemoryGrowth growth
  | byteOffset p rune => exact hc.byteOffset p rune _
  | putNodeBuilder slot b => exact hc.modify ⟨rfl, rfl, rfl, rfl, rfl⟩
  | putMap slot m => exact hc.modify ⟨rfl, rfl, rfl, rfl, rfl⟩

theorem routine (hc : Closed env Q) (r : Routine env α) : Ends Q r.run vm := hc.built r.built

/-! ## Control -/

theorem goTo (hc : Closed env Q) (target : Nat) : Ends Q (Aivm.goTo target) vm := hc.modify ⟨rfl, rfl, rfl, rfl, rfl⟩

theorem advance (hc : Closed env Q) : Ends Q Aivm.advance vm := hc.modify ⟨rfl, rfl, rfl, rfl, rfl⟩

theorem ordinary (hc : Closed env Q) (r : Routine env Unit) : Ends Q (Aivm.ordinary env r) vm :=
  hc.bind (hc.routine r) fun _ _ => hc.advance

theorem jump (hc : Closed env Q) (operand : Int) : Ends Q (Aivm.jump env operand) vm :=
  hc.bind (hc.routine _) fun _ _ => hc.bind (hc.routine _) fun _ _ => hc.goTo _

theorem jumpIfFalse (hc : Closed env Q) (operand : Int) : Ends Q (Aivm.jumpIfFalse env operand) vm :=
  hc.bind (hc.routine _) fun _ _ => hc.bind (hc.routine _) fun _ _ =>
    .ite (fun _ => hc.advance) fun _ => hc.bind (hc.routine _) fun _ _ => hc.goTo _

theorem call (hc : Closed env Q) (operand : Int) : Ends Q (Aivm.call env operand) vm := by
  refine hc.bind (hc.routine _) fun target vm₁ => .get_bind (.ite (fun _ => hc.throw _) fun _ => ?_)
  refine hc.bind (hc.routine _) fun argCount vm₂ => hc.modify_bind ⟨rfl, rfl, rfl, rfl, rfl⟩ ?_
  refine hc.bind (hc.routine _) fun _ vm₃ => .get_bind ?_
  split
  · exact hc.modify_bind ⟨rfl, rfl, rfl, rfl, rfl⟩ (hc.goTo _)
  · exact hc.bind (hc.framePush _ _) fun _ _ => hc.goTo _

theorem restoreFrame (hc : Closed env Q) (frame : CallFrame) : Ends Q (Aivm.restoreFrame frame) vm := by
  refine .get_bind (.ite (fun _ => hc.throw _) fun _ => .ite (fun _ => hc.throw _) fun _ => ?_)
  refine hc.bind (hc.validateVmReturnRestore _ _) fun _ vm₁ => hc.modify_bind ⟨rfl, rfl, rfl, rfl, rfl⟩ ?_
  cases (if frame.frameBase < vm.stack.length then vm.stack.getLast? else none) with
  | some v => exact hc.bind (hc.stackPush v) fun _ _ => hc.modify ⟨rfl, rfl, rfl, rfl, rfl⟩
  | none => exact hc.modify ⟨rfl, rfl, rfl, rfl, rfl⟩

theorem returnSafePoint (hc : Closed env Q) : Ends Q (Aivm.returnSafePoint env) vm := by
  refine .get_bind (.ite (fun _ => ?_) fun _ => ?_)
  · refine .modify_bind hc.chains (hc.tryGrowNodeArenas _ _ _ vm) ?_
    exact .ite (fun _ => hc.collectSafePointInternal _ _) fun _ => .pure hc.chains ()
  · exact .ite (fun _ => hc.collectSafePointInternal _ _) fun _ => .pure hc.chains ()

theorem ret (hc : Closed env Q) : Ends Q (Aivm.ret env) vm := by
  refine .get_bind (.ite (fun _ => hc.modify ⟨rfl, rfl, rfl, rfl, rfl⟩) fun _ => ?_)
  exact hc.bind hc.framePop fun _ _ => hc.bind (hc.restoreFrame _) fun _ _ => hc.bind hc.returnSafePoint fun _ _ => hc.goTo _

/-! ## The task table -/

theorem attempt {x : VmM α} (hx : Ends Q x vm) : Ends Q (VmM.attempt x) vm := by
  intro vm' h
  unfold VmM.attempt at h
  cases hr : x vm with
  | ok a vm₁ =>
      simp only [hr, Outcome.state?, Option.some.injEq] at h
      exact h ▸ hx.ok hr
  | fail vm₁ =>
      simp only [hr, Outcome.state?, Option.some.injEq] at h
      exact h ▸ hx.fail hr
  | undefined => simp [hr, Outcome.state?] at h

theorem removeCompletedTaskSlot_same (handle : Nat) (vm : Vm) : vm.SameTexts (removeCompletedTaskSlot handle vm) := by
  unfold removeCompletedTaskSlot
  split <;> exact ⟨rfl, rfl, rfl, rfl, rfl⟩

theorem reclaimOldestCompletedTaskSlot (hc : Closed env Q) : Ends Q Aivm.reclaimOldestCompletedTaskSlot vm := by
  refine .get_bind (.ite (fun _ => .pure hc.chains ()) fun _ => ?_)
  split
  · exact hc.modify ⟨rfl, rfl, rfl, rfl, rfl⟩
  · exact hc.modify_bind ⟨rfl, rfl, rfl, rfl, rfl⟩ (.giveUp hc.chains)

theorem retainConsumedTaskTombstone (hc : Closed env Q) (handle : Nat) :
    Ends Q (Aivm.retainConsumedTaskTombstone handle) vm :=
  .get_bind (.ite (fun _ => .pure hc.chains ()) fun _ => .ite (fun _ => hc.throw _) fun _ =>
    hc.modify ⟨rfl, rfl, rfl, rfl, rfl⟩)

theorem nextTask (hc : Closed env Q) : Ends Q Aivm.nextTask vm := by
  have hlast : ∀ vm, Ends Q (do
      let vm ← VmM.get
      if vm.nextTaskHandle = int64Max then
        VmM.throw ⟨.invalidProgram, "Task handle overflow."⟩
      else if taskCapacity < vm.completedTasks.length + 1 then
        VmM.throw taskTableExceeded
      else
        return vm.nextTaskHandle) vm := fun vm =>
    .get_bind (.ite (fun _ => hc.throw _) fun _ => .ite (fun _ => hc.throw _) fun _ => .pure hc.chains _)
  exact .get_bind (.ite (fun _ => hc.bind (hc.override hc.reclaimOldestCompletedTaskSlot) fun _ => hlast) fun _ => hlast vm)

theorem pushCompletedTask (hc : Closed env Q) (v : Value) : Ends Q (Aivm.pushCompletedTask v) vm :=
  hc.bind hc.nextTask fun _ _ => hc.modify_bind ⟨rfl, rfl, rfl, rfl, rfl⟩ (hc.stackPush _)

theorem allocateWorkerTask (hc : Closed env Q) (index : Nat) : Ends Q (Aivm.allocateWorkerTask index) vm :=
  hc.bind hc.nextTask fun _ _ => hc.modify_bind ⟨rfl, rfl, rfl, rfl, rfl⟩ (.pure hc.chains _)

/-! ## Worker tasks -/

theorem ensureWorkerRuntime (hc : Closed env Q) : Ends Q (Aivm.ensureWorkerRuntime env) vm := by
  refine .get_bind ?_
  split
  · exact .pure hc.chains ()
  split
  · exact hc.modify ⟨rfl, rfl, rfl, rfl, rfl⟩
  · exact hc.throw _

theorem noteSubmission_same (rt : WorkerRuntime) (index id : Nat) (payload : List Byte) (vm : Vm) :
    vm.SameTexts (noteSubmission env rt index id payload (setWorkerRuntime rt vm)) := by
  unfold noteSubmission
  split <;> exact ⟨rfl, rfl, rfl, rfl, rfl⟩

theorem submitWorkerTask (hc : Closed env Q) (index handle : Nat) (payload : Option (List Byte))
    (fault : WorkerRuntimeStatus → Fault) : Ends Q (Aivm.submitWorkerTask env index handle payload fault) vm := by
  refine .get_bind ?_
  split
  · exact hc.modify_bind (removeCompletedTaskSlot_same _ _) (hc.throw _)
  split
  · exact hc.modify (noteSubmission_same _ _ _ _ _)
  · exact hc.modify_bind (removeCompletedTaskSlot_same _ (setWorkerRuntime _ vm)) (hc.throw _)

theorem materializeWorkerTask (hc : Closed env Q) (group : Nat) : Ends Q (Aivm.materializeWorkerTask env group) vm := by
  refine .get_bind ?_
  split
  · exact .giveUp hc.chains
  split
  · exact hc.bind (hc.allocateWorkerTask _) fun _ _ => hc.bind (hc.submitWorkerTask _ _ _ _) fun _ _ =>
      hc.modify ⟨rfl, rfl, rfl, rfl, rfl⟩
  · exact .giveUp hc.chains

theorem refillGroup (hc : Closed env Q) (group rounds : Nat) : ∀ {vm}, Ends Q (Aivm.refillGroup env group rounds) vm := by
  induction rounds with
  | zero =>
      intro vm
      exact .pure hc.chains ()
  | succ rounds ih =>
      intro vm
      refine .get_bind ?_
      split
      · exact .pure hc.chains ()
      · exact .ite (fun _ => hc.bind (hc.materializeWorkerTask _) fun _ _ => ih) fun _ => .pure hc.chains ()

theorem refillGroups (hc : Closed env Q) (groups : List Nat) : ∀ {vm}, Ends Q (Aivm.refillGroups env groups) vm := by
  induction groups with
  | nil =>
      intro vm
      exact .pure hc.chains ()
  | cons group groups ih =>
      intro vm
      exact .get_bind (.ite (fun _ => hc.bind (hc.refillGroup _ _) fun _ _ => ih) fun _ => .pure hc.chains ())

theorem refillWorkerTaskGroups (hc : Closed env Q) : Ends Q (Aivm.refillWorkerTaskGroups env) vm :=
  .get_bind (hc.refillGroups _)

theorem releaseConsumedTaskResult (hc : Closed env Q) (handle : Nat) :
    Ends Q (Aivm.releaseConsumedTaskResult env handle) vm := by
  have hkeep : Ends Q (keepTombstone handle) vm :=
    .get_bind (.ite (fun _ => hc.bind (hc.retainConsumedTaskTombstone _) fun _ _ => hc.modify ⟨rfl, rfl, rfl, rfl, rfl⟩)
      fun _ => .pure hc.chains ())
  refine hc.bind hkeep fun _ vm₁ => hc.modify_bind (removeCompletedTaskSlot_same handle vm₁) ?_
  exact hc.bind hc.refillWorkerTaskGroups fun _ _ => hc.collectSafePoint

/-! ## Results of tasks -/

theorem completeWorkerTask (hc : Closed env Q) (nested : Vm → Option Vm) (slot handle : Nat) :
    Ends Q (Aivm.completeWorkerTask env nested slot handle) vm := by
  have hrelease : ∀ vm : Vm, vm.SameTexts (releaseSubmission handle vm) := fun _ => ⟨rfl, rfl, rfl, rfl, rfl⟩
  refine .get_bind ?_
  split
  · exact .giveUp hc.chains
  refine hc.bind (.deref hc.chains _) fun t vm₁ => .ite (fun _ => ?_) fun _ => ?_
  · exact hc.bind (hc.routine _) fun _ _ => hc.modify ⟨rfl, rfl, rfl, rfl, rfl⟩
  refine hc.bind (.deref hc.chains _) fun result vm₂ => ?_
  cases result with
  | completed data =>
      exact hc.bind (hc.onFail (hc.bytesArenaAlloc _) hrelease) fun _ _ => hc.modify ⟨rfl, rfl, rfl, rfl, rfl⟩
  | transportError detail => exact hc.onFail (hc.throw _) hrelease
  | failed detail => exact hc.onFail (hc.throw _) hrelease

theorem completePendingBytecodeTask (hc : Closed env Q) (nested : Vm → Option Vm) (slot : Nat) (t : CompletedTask Vm) :
    Ends Q (Aivm.completePendingBytecodeTask env nested slot t) vm := by
  refine .ite (fun _ => hc.completeWorkerTask _ _ _) fun _ => ?_
  split
  · exact .pure hc.chains ()
  refine hc.bind (.deref hc.chains _) fun worker vm₁ => ?_
  split
  · exact hc.throw _
  · exact hc.bind (hc.copyWorkerBoundaryValue _ _ _) fun _ _ => hc.modify ⟨rfl, rfl, rfl, rfl, rfl⟩

theorem findTerminalTaskResult (hc : Closed env Q) (nested : Vm → Option Vm) (handle : Nat) :
    Ends Q (Aivm.findTerminalTaskResult env nested handle) vm := by
  have hnone : ∀ (seen : Vm) vm, Ends Q (findTerminalTaskResult.notFound handle seen) vm := fun _ _ =>
    .ite (fun _ => hc.throw _) fun _ => .giveUp hc.chains
  refine .get_bind ?_
  split
  · exact hnone _ _
  rename_i slot _
  have hlast : ∀ vm, Ends Q (do
      let vm ← VmM.get
      let t ← VmM.deref vm.completedTasks[slot]?
      if t.state.isTerminal then
        if ← VmM.deref (taskTerminalPayloadIsValid vm t) then
          return t.result
        else
          VmM.throw ⟨.invalidProgram, "Terminal failed/canceled task requires Err node result."⟩
      else
        findTerminalTaskResult.notFound handle vm) vm := by
    intro vm
    refine .get_bind (hc.bind (.deref hc.chains _) fun t vm₁ => .ite (fun _ => ?_) fun _ => hnone _ _)
    exact hc.bind (.deref hc.chains _) fun valid vm₂ => .ite (fun _ => .pure hc.chains _) fun _ => hc.throw _
  refine hc.bind (.deref hc.chains _) fun t vm₁ => .ite (fun _ => ?_) fun _ => hlast vm₁
  exact hc.bind (hc.completePendingBytecodeTask _ _ _) fun _ => hlast

theorem await (hc : Closed env Q) (nested : Vm → Option Vm) : Ends Q (Aivm.await env nested) vm := by
  refine hc.bind hc.stackPop fun v vm₁ => ?_
  split
  · exact hc.bind (hc.orFault (hc.findTerminalTaskResult _ _)) fun _ _ => hc.bind (hc.stackPush _) fun _ _ =>
      hc.bind (hc.releaseConsumedTaskResult _) fun _ _ => hc.advance
  · exact hc.throw _

/-! ## Subroutine workers and worker instructions -/

theorem startCallSubroutine (hc : Closed env Q) (target : Nat) : Ends Q (Aivm.startCallSubroutine env target) vm := by
  refine .get_bind (.ite (fun _ => hc.throw _) fun _ => hc.bind (hc.routine _) fun argCount vm₁ => ?_)
  refine hc.bind hc.nextTask fun handle vm₂ => hc.bind (hc.allocate _) fun _ vm₃ => .get_bind ?_
  refine hc.bind (.deref hc.chains _) fun worker vm₄ => ?_
  split
  · exact .deref hc.chains _
  · exact hc.throw _
  · exact .ite (fun _ => hc.modify_bind ⟨rfl, rfl, rfl, rfl, rfl⟩ (.pure hc.chains _)) fun _ => hc.throw _

theorem asyncCall (hc : Closed env Q) (operand : Int) : Ends Q (Aivm.asyncCall env operand) vm :=
  hc.bind (hc.routine _) fun _ _ => hc.bind (hc.startCallSubroutine _) fun _ _ => hc.bind (hc.stackPush _) fun _ _ =>
    hc.advance

theorem workerRef (hc : Closed env Q) (operand : Int) : Ends Q (Aivm.workerRef env operand) vm :=
  hc.bind (hc.routine _) fun _ _ => .get_bind (.ite (fun _ => hc.throw _) fun _ =>
    hc.bind (hc.stackPush _) fun _ _ => hc.advance)

theorem readPayload (hc : Closed env Q) (d : BytesPtr) (n : Nat) : Ends Q (Aivm.readPayload d n) vm :=
  .get_bind (.ite (fun _ => .pure hc.chains _) fun _ => hc.bind (.deref hc.chains _) fun _ _ => .pure hc.chains _)

theorem workerRun (hc : Closed env Q) : Ends Q (Aivm.workerRun env) vm := by
  refine hc.bind hc.stackPop fun payload vm₁ => hc.bind hc.stackPop fun ref vm₂ => ?_
  split
  · refine .get_bind (.ite (fun _ => .giveUp hc.chains) fun _ => hc.bind hc.ensureWorkerRuntime fun _ vm₃ => ?_)
    exact hc.bind (hc.allocateWorkerTask _) fun _ _ => hc.bind (hc.readPayload _ _) fun _ _ =>
      hc.bind (hc.submitWorkerTask _ _ _ _) fun _ _ => hc.bind (hc.stackPush _) fun _ _ => hc.advance
  · exact hc.throw _

theorem admitWorkload (hc : Closed env Q) (index batchLength : Nat) (payloads : List (List Byte)) :
    Ends Q (Aivm.admitWorkload env index batchLength payloads) vm := by
  refine .get_bind (.ite (fun _ => hc.throw _) fun _ => .ite (fun _ => hc.throw _) fun _ =>
    .ite (fun _ => .giveUp hc.chains) fun _ => hc.bind hc.ensureWorkerRuntime fun _ vm₁ => ?_)
  exact hc.bind (hc.allocate _) fun _ _ => hc.modify_bind ⟨rfl, rfl, rfl, rfl, rfl⟩ (.pure hc.chains _)

theorem workerRunAll (hc : Closed env Q) (operand : Int) : Ends Q (Aivm.workerRunAll env operand) vm := by
  refine hc.bind (hc.routine _) fun version vm₁ => hc.bind (hc.override (.ite (fun _ => .giveUp hc.chains) fun _ =>
    hc.bind hc.stackPop fun _ _ => hc.bind hc.stackPop fun _ _ => .pure hc.chains _)) fun operands vm₂ => ?_
  split
  · refine .get_bind (hc.bind (.deref hc.chains _) fun data vm₃ => ?_)
    split
    · exact hc.throw _
    · exact hc.bind (hc.admitWorkload _ _ _) fun _ _ => hc.bind hc.refillWorkerTaskGroups fun _ _ =>
        hc.bind (hc.stackPush _) fun _ _ => hc.advance
  · exact hc.throw _

theorem workerTaskAt (hc : Closed env Q) : Ends Q Aivm.workerTaskAt vm := by
  refine hc.bind hc.stackPop fun index vm₁ => hc.bind hc.stackPop fun tasks vm₂ => ?_
  split
  · refine .ite (fun _ => hc.throw _) fun _ => .get_bind ?_
    split
    · exact hc.throw _
    · exact hc.throw _
    · exact hc.bind (hc.stackPush _) fun _ _ => hc.advance
  · exact hc.throw _

theorem cancelSubmission (hc : Closed env Q) (id : Nat) : Ends Q (Aivm.cancelSubmission env id) vm := by
  refine .get_bind ?_
  split
  · exact .pure hc.chains _
  split
  · exact .giveUp hc.chains
  · exact .ite (fun _ => .pure hc.chains _) fun _ => hc.modify_bind ⟨rfl, rfl, rfl, rfl, rfl⟩ (.pure hc.chains _)

theorem taskCancel (hc : Closed env Q) : Ends Q (Aivm.taskCancel env) vm := by
  refine hc.bind hc.stackPop fun v vm₁ => ?_
  split
  · refine .get_bind ?_
    split
    · exact hc.throw _
    · have hpush : ∀ canceled vm, Ends Q (Aivm.stackPush (.bool canceled) >>= fun _ => Aivm.advance) vm := fun _ _ =>
        hc.bind (hc.stackPush _) fun _ _ => hc.advance
      exact .ite (fun _ => hc.bind (hc.cancelSubmission _) hpush) fun _ => hc.bind (.pure hc.chains _) hpush
  · exact hc.throw _

/-! ## Parallel blocks -/

theorem parBegin (hc : Closed env Q) (operand : Int) : Ends Q (Aivm.parBegin env operand) vm :=
  hc.bind (hc.routine _) fun _ _ => .get_bind (.ite (fun _ => hc.throw _) fun _ =>
    hc.modify_bind ⟨rfl, rfl, rfl, rfl, rfl⟩ hc.advance)

theorem parFork (hc : Closed env Q) : Ends Q Aivm.parFork vm :=
  .get_bind (.ite (fun _ => hc.throw _) fun _ => .ite (fun _ => hc.throw _) fun _ => hc.bind hc.stackPop fun _ _ =>
    hc.modify_bind ⟨rfl, rfl, rfl, rfl, rfl⟩ hc.advance)

theorem joinedValue (hc : Closed env Q) (nested : Vm → Option Vm) (v : Value) :
    Ends Q (Aivm.joinedValue env nested v) vm := by
  unfold Aivm.joinedValue
  split
  · refine hc.bind (Closed.attempt (hc.findTerminalTaskResult _ _)) fun result vm₁ => ?_
    split <;> exact .pure hc.chains _
  · exact .pure hc.chains _

theorem joinValues (hc : Closed env Q) (nested : Vm → Option Vm) (start remaining : Nat) :
    ∀ {i vm}, Ends Q (Aivm.joinValues env nested start remaining i) vm := by
  induction remaining with
  | zero =>
      intro i vm
      exact .pure hc.chains _
  | succ remaining ih =>
      intro i vm
      refine .get_bind ?_
      split
      · exact hc.throw _
      · exact hc.bind (hc.joinedValue _ _) fun _ _ => hc.bind (hc.routine _) fun _ _ => hc.bind ih fun _ _ =>
          .pure hc.chains _

theorem releaseJoined (hc : Closed env Q) (handles : List Nat) : ∀ {vm}, Ends Q (Aivm.releaseJoined env handles) vm := by
  induction handles with
  | nil =>
      intro vm
      exact .pure hc.chains ()
  | cons handle handles ih =>
      intro vm
      exact hc.bind (hc.releaseConsumedTaskResult _) fun _ _ => ih

theorem createParBlock (hc : Closed env Q) (children : List Nat) : Ends Q (Aivm.createParBlock env children) vm :=
  .get_bind (hc.modify_bind ⟨rfl, rfl, rfl, rfl, rfl⟩ (hc.routine _))

theorem closePar (hc : Closed env Q) (start block : Nat) : Ends Q (Aivm.closePar start block) vm :=
  hc.modify_bind ⟨rfl, rfl, rfl, rfl, rfl⟩ (hc.stackPush _)

theorem parJoin (hc : Closed env Q) (nested : Vm → Option Vm) (operand : Int) :
    Ends Q (Aivm.parJoin env nested operand) vm := by
  refine hc.bind (hc.routine _) fun joinCount vm₁ => .get_bind ?_
  split
  · exact hc.throw _
  refine .ite (fun _ => hc.throw _) fun _ => .ite (fun _ => hc.throw _) fun _ => ?_
  refine hc.bind (hc.joinValues _ _ _) fun joined vm₂ => .get_bind (.ite (fun _ => .giveUp hc.chains) fun _ => ?_)
  exact hc.bind (hc.createParBlock _) fun _ _ => hc.bind (hc.closePar _ _) fun _ _ => hc.bind (hc.releaseJoined _) fun _ _ =>
    hc.advance

/-! ## System calls -/

theorem dispatchSyscall (hc : Closed env Q) (s : Syscall) : Ends Q (Aivm.dispatchSyscall env s) vm := by
  refine .get_bind ?_
  split
  · exact hc.routine _
  · exact hc.routine _
  · exact hc.routine _
  · exact hc.modify_bind ⟨rfl, rfl, rfl, rfl, rfl⟩ (hc.routine _)

theorem callSysWithArity (hc : Closed env Q) (argCount : Nat) : Ends Q (Aivm.callSysWithArity env argCount) vm :=
  hc.bind (hc.routine _) fun _ _ => .ite (fun _ => hc.routine _) fun _ => hc.dispatchSyscall _

theorem callSys (hc : Closed env Q) (operand : Int) : Ends Q (Aivm.callSys env operand) vm := by
  refine hc.bind (hc.routine _) fun _ _ => hc.bind (Closed.attempt (hc.callSysWithArity _)) fun result vm₁ => ?_
  split
  · exact hc.bind (hc.stackPush _) fun _ _ => hc.advance
  · exact .pure hc.chains ()

theorem asyncCallSys (hc : Closed env Q) (operand : Int) : Ends Q (Aivm.asyncCallSys env operand) vm := by
  refine hc.bind (hc.routine _) fun _ _ => hc.bind (Closed.attempt (hc.callSysWithArity _)) fun result vm₁ => ?_
  split
  · exact hc.bind (hc.pushCompletedTask _) fun _ _ => hc.advance
  · exact .pure hc.chains ()

/-! ## Steps -/

/-- Every instruction stays within the relation. -/
theorem execute (hc : Closed env Q) (nested : Vm → Option Vm) (i : Instruction) :
    Ends Q (Aivm.execute env nested i) vm := by
  unfold Aivm.execute
  cases i.opcode with
  | nop => exact hc.advance
  | halt => exact hc.modify ⟨rfl, rfl, rfl, rfl, rfl⟩
  | stub => exact hc.modify ⟨rfl, rfl, rfl, rfl, rfl⟩
  | jump => exact hc.jump _
  | jumpIfFalse => exact hc.jumpIfFalse _
  | call => exact hc.call _
  | ret => exact hc.ret
  | return_ => exact hc.ret
  | callSys => exact hc.callSys _
  | asyncCall => exact hc.asyncCall _
  | asyncCallSys => exact hc.asyncCallSys _
  | await => exact hc.await _
  | parBegin => exact hc.parBegin _
  | parFork => exact hc.parFork
  | parJoin => exact hc.parJoin _ _
  | parCancel => exact hc.advance
  | workerRef => exact hc.workerRef _
  | workerRun => exact hc.workerRun
  | taskCancel => exact hc.taskCancel
  | workerRunAll => exact hc.workerRunAll _
  | workerTaskAt => exact hc.workerTaskAt
  | _ => exact hc.ordinary _

theorem settle_same (vm : Vm) : vm.SameTexts (settle vm) := by
  unfold settle
  split <;> exact ⟨rfl, rfl, rfl, rfl, rfl⟩

/-- And so does every step. -/
theorem stepWith (hc : Closed env Q) {nested : Vm → Option Vm} (h : Aivm.stepWith env nested vm = some vm') : Q vm vm' := by
  unfold Aivm.stepWith at h
  split at h
  · cases h
    exact hc.chains.refl vm
  split at h
  · cases h
    exact hc.same ⟨rfl, rfl, rfl, rfl, rfl⟩
  rename_i i _
  have hbegin : Q vm (beginStep i vm) := hc.same ⟨rfl, rfl, rfl, rfl, rfl⟩
  split at h
  · rename_i vm₁ hr
    cases h
    exact hc.chains.trans hbegin (hc.chains.trans ((hc.execute nested i).ok hr) (hc.same (settle_same vm₁)))
  · rename_i vm₁ hr
    cases h
    exact hc.chains.trans hbegin (hc.chains.trans ((hc.execute nested i).fail hr)
      (hc.chains.trans (hc.same ⟨rfl, rfl, rfl, rfl, rfl⟩) (hc.same (settle_same (stopStep vm₁)))))
  · cases h

theorem step (hc : Closed env Q) {fuel : Nat} (h : Aivm.step env fuel vm = some vm') : Q vm vm' := hc.stepWith h

/-! ## Machines in use -/

theorem initializeProcessArgvNode (hc : Closed env Q) : Ends Q (Aivm.initializeProcessArgvNode env) vm := by
  refine hc.modify_bind ⟨rfl, rfl, rfl, rfl, rfl⟩ (.get_bind (hc.bind (hc.routine _) fun k vm₁ => ?_))
  exact hc.modify_bind ⟨rfl, rfl, rfl, rfl, rfl⟩ (hc.bind (hc.routine _) fun _ _ => hc.routine _)

theorem enterSubroutine (hc : Closed env Q) {owner : Vm} {target : Nat} (args : List Value) :
    ∀ {vm}, Ends Q (Aivm.enterSubroutine env owner target args) vm := by
  induction args with
  | nil =>
      intro vm
      exact hc.bind (hc.framePush _ _) fun _ _ => hc.goTo _
  | cons v args ih =>
      intro vm
      exact hc.bind (hc.copyWorkerBoundaryValue _ _ _) fun _ _ => hc.bind (hc.stackPush _) fun _ _ => ih

variable {I : Vm → Prop}

/-- What is kept does not depend on what lies outside the texts and nodes. -/
theorem frame (hc : Closed env (Keeping I)) (h : I vm) (hsame : vm.SameTexts vm') : I vm' := hc.same hsame h

theorem resetState (hc : Closed env (Keeping I)) (hreset : I (resetFields vm)) (h : Aivm.resetState env vm = some vm') :
    I vm' := by
  have hargv : Ends (Keeping I) (Aivm.initializeProcessArgvNode env) (resetFields vm) := hc.initializeProcessArgvNode
  unfold Aivm.resetState at h
  split at h
  · rename_i hr
    cases h
    exact hc.frame (hargv.ok hr hreset) ⟨rfl, rfl, rfl, rfl, rfl⟩
  · rename_i hr
    cases h
    exact hc.frame (hargv.fail hr hreset) ⟨rfl, rfl, rfl, rfl, rfl⟩
  · cases h

theorem initVm (hc : Closed env (Keeping I)) (hzero : ∀ program, I (zeroedVm program))
    (hreset : ∀ {vm}, I vm → I (resetFields vm)) {program bindings argv profile hostClock}
    (h : Aivm.initVm env program bindings argv profile hostClock = some vm) : I vm := by
  simp only [Aivm.initVm] at h
  split at h
  · refine hc.resetState (hreset ?_) h
    exact hc.frame (hzero program) ⟨rfl, rfl, rfl, rfl, rfl⟩
  · cases h

theorem workerVm (hc : Closed env (Keeping I)) (hzero : ∀ program, I (zeroedVm program))
    (hreset : ∀ {vm}, I vm → I (resetFields vm)) {p rt id payload} (h : Aivm.workerVm env p rt id payload = some vm) : I vm := by
  have hpush : ∀ {vm} d n, Ends (Keeping I) (do
      Aivm.stackPush (.bytes d n)
      Aivm.framePush p.loaded.instructions.length 0 : VmM Unit) vm := fun _ _ =>
    hc.bind (hc.stackPush _) fun _ _ => hc.framePush _ _
  simp only [Aivm.workerVm, Option.bind_eq_bind, Option.bind_eq_some_iff] at h
  obtain ⟨vm₀, hinit, h⟩ := h
  have h₀ : I { vm₀ with syscallPolicy := p.requiredCapabilities } :=
    hc.frame (hc.initVm hzero hreset hinit) ⟨rfl, rfl, rfl, rfl, rfl⟩
  split at h
  · rename_i hr
    cases h
    exact hc.frame ((hpush _ _).ok hr h₀) ⟨rfl, rfl, rfl, rfl, rfl⟩
  · rename_i hr
    cases h
    exact (hpush _ _).fail hr h₀
  · cases h

/-- What holds of an empty machine, and is kept by a reset and by all that is done, holds of every machine in use. -/
theorem arises (hc : Closed env (Keeping I)) (hzero : ∀ program, I (zeroedVm program))
    (hreset : ∀ {vm}, I vm → I (resetFields vm)) (h : Arises env vm) : I vm := by
  induction h with
  | made h => exact hc.initVm hzero hreset h
  | worker h => exact hc.workerVm hzero hreset h
  | subroutine hw he =>
      obtain ⟨w, hinit, rfl⟩ := Option.map_eq_some_iff.1 hw
      exact (hc.enterSubroutine _).ok he (hc.frame (hc.initVm hzero hreset hinit) ⟨rfl, rfl, rfl, rfl, rfl⟩)
  | stepped _ hs ih => exact hc.step hs ih
  | reset _ hr ih => exact hc.resetState (hreset ih) hr
  | profiled _ _ ih => exact hc.frame ih ⟨rfl, rfl, rfl, rfl, rfl⟩
  | permitted _ _ ih => exact hc.frame ih ⟨rfl, rfl, rfl, rfl, rfl⟩

end Closed

end Aivm
