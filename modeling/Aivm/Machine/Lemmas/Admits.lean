import Aivm.Machine.Step
import Aivm.Machine.Lemmas.Awaits

/-!
# What an instruction does

Every instruction is a sequence of a few changes to the state, each made under conditions that its checks have
established, and at most one move of the instruction pointer at its end. A relation that admits the changes holds across
the instruction up to the move, whether it succeeds or fails.
-/

namespace Aivm

open VmM

/-- A worker task that has been entered into the table but not submitted yet. -/
def pendingWorkerTask (index handle : Nat) : CompletedTask Vm := ⟨.pending, handle, .void, none, index, true⟩

/-- A state in which the next task can be entered. -/
def Vm.HasRoom (vm : Vm) : Prop := vm.nextTaskHandle ≠ int64Max ∧ vm.completedTasks.length < taskCapacity

/-- Leave the current frame without a result. -/
def leaveFrame (frame : CallFrame) (vm : Vm) : Vm :=
  dropLocals frame.localsBase
    { vm with callFrames := vm.callFrames.dropLast, stack := vm.stack.take frame.frameBase }

/-- The handles of a task table: each is above those before it and below the next one. -/
structure InOrder (handles : List Nat) (next : Nat) : Prop where
  positive : 0 < next
  increasing : handles.Pairwise (· < ·)
  issued : ∀ handle ∈ handles, 0 < handle ∧ handle < next

def Vm.TasksInOrder (vm : Vm) : Prop := InOrder (vm.completedTasks.map (·.handle)) vm.nextTaskHandle

/-- A handle that has been issued, and no task of which is pending. -/
def Vm.Settled (vm : Vm) (handle : Nat) : Prop :=
  0 < handle ∧ handle < vm.nextTaskHandle ∧ ∀ t ∈ vm.completedTasks, t.handle = handle → t.state ≠ .pending

/-- The bytes of a batch, each payload behind its length in four bytes. -/
def batchBytes (payloads : List (List Byte)) : Nat := (payloads.map fun payload => 4 + payload.length).sum

/-- A relation that admits what an instruction does that leaves no frame, the move of the instruction pointer apart. -/
structure Proceeds (env : Env) (nested : Vm → Option Vm) (Q : Vm → Vm → Prop) : Prop extends Awaits env nested Q where
  frameLimit : ∀ needed vm, Q vm (ensureCallFrameCapacity needed vm)
  pushFrame : ∀ {target base} vm, base ≤ vm.stack.length → vm.callFrames.length < vm.callFrameLimit →
    target ≤ instructionCount vm →
    (∀ frame ∈ vm.callFrames.getLast?, frame.frameBase ≤ base ∧ frame.localsBase ≤ vm.locals.length) →
    Q vm { vm with callFrames := vm.callFrames ++ [⟨target, base, vm.locals.length⟩] }
  reuse : ∀ {frame argCount} vm, vm.callFrames.getLast? = some frame → argCount ≤ vm.stack.length →
    frame.frameBase ≤ vm.stack.length - argCount → Q vm (reuseFrame argCount frame vm)
  openPar : ∀ expectedCount vm, vm.parContexts.length < parContextCapacity →
    Q vm { vm with parContexts := vm.parContexts ++ [⟨expectedCount, vm.parValues.length⟩] }
  addPar : ∀ v vm, vm.parContexts ≠ [] → vm.parValues.length < parValueCapacity →
    Q vm { vm with parValues := vm.parValues ++ [v] }
  closePar : ∀ {context} vm, vm.parContexts.getLast? = some context →
    Q vm { vm with parContexts := vm.parContexts.dropLast, parValues := vm.parValues.take context.startIndex }
  reclaimed : ∀ {slot} vm, reclaimableSlot vm = some slot → Q vm (removeTaskSlot slot (countSkipped slot vm))
  entered : ∀ result vm, vm.HasRoom → Q vm (enterTask ⟨.completed, vm.nextTaskHandle, result, none, 0, false⟩ vm)
  started : ∀ {target argCount w worker} vm, vm.HasRoom → target < instructionCount vm → argCount ≤ vm.stack.length →
    subroutineVm env vm = some w →
    enterSubroutine env vm target (vm.stack.drop (vm.stack.length - argCount)) w = .ok () worker →
    Q vm (enterSubroutineTask worker argCount vm.nextTaskHandle vm)
  created : ∀ {rt} vm, vm.workerRuntime = none → WorkerRuntime.create env vm = some rt → Q vm (setWorkerRuntime rt vm)
  submitted : ∀ {rt rt' index payload} vm, vm.HasRoom → vm.workerRuntime = some rt →
    rt.submit env (enterTask (pendingWorkerTask index vm.nextTaskHandle) vm) index vm.nextTaskHandle payload = (rt', none) →
    Q vm (noteSubmission env rt' index vm.nextTaskHandle (payload.getD [])
      (setWorkerRuntime rt' (enterTask (pendingWorkerTask index vm.nextTaskHandle) vm)))
  refused : ∀ {rt rt' index payload status} vm, vm.HasRoom → vm.workerRuntime = some rt →
    rt.submit env (enterTask (pendingWorkerTask index vm.nextTaskHandle) vm) index vm.nextTaskHandle payload =
      (rt', some status) →
    Q vm (removeCompletedTaskSlot vm.nextTaskHandle
      (setWorkerRuntime rt' (enterTask (pendingWorkerTask index vm.nextTaskHandle) vm)))
  unheard : ∀ index vm, vm.HasRoom → vm.workerRuntime = none →
    Q vm (removeCompletedTaskSlot vm.nextTaskHandle (enterTask (pendingWorkerTask index vm.nextTaskHandle) vm))
  workload : ∀ {index payloads} vm, payloads ≠ [] →
    vm.workerLogicalTaskCount + payloads.length ≤ vm.workerLogicalTaskLimit →
    vm.workerLogicalInputBytes + batchBytes payloads ≤ vm.workerLogicalInputLimit →
    vm.workerTaskGroups.length < taskCapacity → vm.nextWorkerTaskGroupHandle ≠ int64Max →
    Q vm (enterWorkload index (batchBytes payloads) payloads vm)
  materialized : ∀ {rt rt' slot g payload} vm, vm.HasRoom → vm.workerRuntime = some rt →
    vm.workerTaskGroups[slot]? = some g → g.payloads[g.nextMaterializeIndex]? = some payload →
    g.taskHandles[g.nextMaterializeIndex]? = some 0 →
    rt.submit env (enterTask (pendingWorkerTask g.workerCatalogIndex vm.nextTaskHandle) vm) g.workerCatalogIndex
      vm.nextTaskHandle (some payload) = (rt', none) →
    Q vm { noteSubmission env rt' g.workerCatalogIndex vm.nextTaskHandle payload
        (setWorkerRuntime rt' (enterTask (pendingWorkerTask g.workerCatalogIndex vm.nextTaskHandle) vm)) with
      workerTaskGroups := vm.workerTaskGroups.set slot (g.materialized vm.nextTaskHandle) }
  canceled : ∀ {rt} id vm, vm.workerRuntime = some rt → Q vm (setWorkerRuntime (rt.cancel id) vm)
  consumed : ∀ {handle u vm₀ vm₁} vm, (vm₀.TasksInOrder → vm.Settled handle) → Q vm₀ vm →
    keepTombstone handle vm = .ok u vm₁ → Q vm₀ (noteEvent (.taskConsumed handle) (removeCompletedTaskSlot handle vm₁))
  handled : ∀ {s : Syscall} {expected handler} vm, contractValidate s.target s.args = .ok expected →
    policyAllows vm.syscallPolicy (contractCapability s.target) = true →
    findHandler vm.syscallBindings s.target = some handler → Q vm (noteEvent (.handlerInvoked s.target) vm)

/-- A relation that admits every change that an instruction makes, the move of the instruction pointer apart. -/
structure Admits (env : Env) (nested : Vm → Option Vm) (Q : Vm → Vm → Prop) : Prop extends Proceeds env nested Q where
  popFrame : ∀ vm, vm.callFrames ≠ [] → Q vm { vm with callFrames := vm.callFrames.dropLast }
  leave : ∀ {frame} vm, vm.callFrames.getLast? = some frame → frame.fits vm → Q vm (leaveFrame frame vm)
  validateReturn : ∀ frame count vm, Ends Q (validateVmReturnRestore frame count) vm

/-! ## Where an instruction ends -/

/-- The move of the instruction pointer at the end of an instruction. -/
inductive Landing (vm : Vm) : Vm → Prop where
  | stay : Landing vm vm
  | next : Landing vm { vm with instructionPointer := vm.instructionPointer + 1 }
  | goTo {target} : target ≤ instructionCount vm → Landing vm { vm with instructionPointer := target }
  | halt : vm.status ≠ .error → Landing vm (Aivm.halt vm)

/-- A relation that holds up to the final move, or up to the failure. -/
structure Lands (Q : Vm → Vm → Prop) (x : VmM Unit) (vm : Vm) : Prop where
  ok : ∀ {u vm'}, x vm = .ok u vm' → ∃ vm₁, Q vm vm₁ ∧ Landing vm₁ vm'
  fail : ∀ {vm'}, x vm = .fail vm' → Q vm vm'

namespace Lands

variable {Q : Vm → Vm → Prop} {vm vm' : Vm} {α : Type}

theorem of_ends {x : VmM Unit} (h : Ends Q x vm) : Lands Q x vm := ⟨fun hx => ⟨_, h.ok hx, .stay⟩, fun hx => h.fail hx⟩

theorem move (hq : Chains Q) {f : Vm → Vm} (h : Landing vm (f vm)) : Lands Q (VmM.modify f) vm := by
  refine ⟨fun hx => ?_, fun hx => ?_⟩
  · cases hx
    exact ⟨vm, hq.refl vm, h⟩
  · cases hx

theorem advance (hq : Chains Q) : Lands Q Aivm.advance vm := move hq .next

theorem goTo (hq : Chains Q) {target : Nat} (h : target ≤ instructionCount vm) : Lands Q (Aivm.goTo target) vm :=
  move hq (.goTo h)

theorem after (hq : Chains Q) {vm₁ : Vm} {x : VmM Unit} (h : Q vm vm₁) (hx : Lands Q x vm₁) {u} :
    (x vm₁ = .ok u vm' → ∃ vm₂, Q vm vm₂ ∧ Landing vm₂ vm') ∧ (x vm₁ = .fail vm' → Q vm vm') := by
  refine ⟨fun ho => ?_, fun hf => hq.trans h (hx.fail hf)⟩
  obtain ⟨vm₂, hq₂, hl⟩ := hx.ok ho
  exact ⟨vm₂, hq.trans h hq₂, hl⟩

theorem bind (hq : Chains Q) {x : VmM α} {f : α → VmM Unit} (hx : Ends Q x vm)
    (hf : ∀ a vm₁, x vm = .ok a vm₁ → Lands Q (f a) vm₁) : Lands Q (x >>= f) vm := by
  refine ⟨fun {u vm'} h => ?_, fun {vm'} h => ?_⟩
  · obtain ⟨a, vm₁, ha, h⟩ := bind_ok.1 h
    exact (after hq (hx.ok ha) (hf a vm₁ ha) (u := u)).1 h
  · obtain h | ⟨a, vm₁, ha, h⟩ := bind_fail.1 h
    · exact hx.fail h
    · exact hq.trans (hx.ok ha) ((hf a vm₁ ha).fail h)

theorem get_bind {f : Vm → VmM Unit} (h : Lands Q (f vm) vm) : Lands Q (VmM.get >>= f) vm := ⟨h.ok, h.fail⟩

theorem modify_bind (hq : Chains Q) {g : Vm → Vm} {f : Unit → VmM Unit} (hg : Q vm (g vm)) (h : Lands Q (f ()) (g vm)) :
    Lands Q (VmM.modify g >>= f) vm := by
  refine bind hq (.modify hg) fun _ vm₁ h₁ => ?_
  cases h₁
  exact h

theorem ite {c : Prop} [Decidable c] {x y : VmM Unit} (hx : c → Lands Q x vm) (hy : ¬ c → Lands Q y vm) :
    Lands Q (if c then x else y) vm := by
  split
  · rename_i h
    exact hx h
  · rename_i h
    exact hy h

end Lands

/-! ## Checks that leave the state as it is -/

section Looks

variable {env : Env} {vm vm' : Vm} {u : Unit}

theorem routine_throw_ok {α : Type} {f : Fault} {hf : f.Regular} {a : α} :
    (Routine.throw f hf : Routine env α).run vm ≠ .ok a vm' := by
  intro h
  cases h

theorem operandToIndex_ok {operand : Int} {n : Nat} (h : (Routine.operandToIndex operand : Routine env Nat).run vm = .ok n vm') :
    vm' = vm := by
  unfold Routine.operandToIndex at h
  split at h
  · exact absurd h routine_throw_ok
  · cases h
    rfl

theorem jumpTarget_ok {target : Nat} (h : (jumpTarget env target).run vm = .ok u vm') :
    vm' = vm ∧ target ≤ instructionCount vm := by
  obtain ⟨_, _, hlook, h⟩ := bind_ok.1 h
  cases hlook
  dsimp only at h
  split at h
  · exact absurd h routine_throw_ok
  · rename_i hle
    cases h
    exact ⟨rfl, Nat.le_of_not_lt hle⟩

theorem validateLayoutFrom_ok {program : Program} {target argCount : Nat} : ∀ {remaining seen},
    (validateLayoutFrom env program target argCount remaining seen).run vm = .ok u vm' → vm' = vm := by
  intro remaining
  induction remaining with
  | zero =>
      intro seen h
      cases h
      rfl
  | succ remaining ih =>
      intro seen h
      unfold validateLayoutFrom at h
      split at h
      · exact absurd h routine_throw_ok
      split at h
      · exact absurd h routine_throw_ok
      obtain ⟨index, vm₁, hindex, h⟩ := bind_ok.1 h
      cases operandToIndex_ok hindex
      dsimp only at h
      split at h
      · obtain ⟨_, _, hthrow, _⟩ := bind_ok.1 h
        exact absurd hthrow routine_throw_ok
      · exact ih h

theorem checkCallTarget_ok {target n : Nat} (h : (checkCallTarget env target).run vm = .ok n vm') :
    vm' = vm ∧ n ≤ vm.stack.length := by
  obtain ⟨_, _, hlook, h⟩ := bind_ok.1 h
  cases hlook
  dsimp only at h
  split at h
  · obtain ⟨_, _, hthrow, _⟩ := bind_ok.1 h
    exact absurd hthrow routine_throw_ok
  · rename_i hle
    obtain ⟨_, vm₁, hlayout, h⟩ := bind_ok.1 h
    have hsame : vm₁ = vm := by
      unfold validateCallTargetLayout at hlayout
      split at hlayout
      · exact absurd hlayout routine_throw_ok
      · exact validateLayoutFrom_ok hlayout
    subst hsame
    cases h
    exact ⟨rfl, Nat.le_of_not_lt hle⟩

theorem checkArgumentFrame_ok {target argCount : Nat} (h : (checkArgumentFrame env target argCount).run vm = .ok u vm') :
    vm' = vm ∧ ∀ frame ∈ vm.callFrames.getLast?, frame.frameBase ≤ vm.stack.length - argCount := by
  obtain ⟨_, _, hlook, h⟩ := bind_ok.1 h
  cases hlook
  have hseen : vm.seen.callFrames = vm.callFrames := rfl
  dsimp only at h
  rw [hseen] at h
  cases hframe : vm.callFrames.getLast? with
  | none =>
      rw [hframe] at h
      cases h
      exact ⟨rfl, fun _ hf => by cases hf⟩
  | some frame =>
      rw [hframe] at h
      dsimp only at h
      split at h
      · exact absurd h routine_throw_ok
      · rename_i hle
        cases h
        refine ⟨rfl, fun f hf => ?_⟩
        cases hf
        exact Nat.le_of_not_lt hle

theorem validateVmReturnRestore_ends {Q : Vm → Vm → Prop} (hq : Chains Q) (hfault : ∀ f vm, Q vm (setVmError f vm))
    (frame : CallFrame) (count : Nat) (vm : Vm) : Ends Q (validateVmReturnRestore frame count) vm := by
  refine .of_cases (fun u vm' h => ?_) fun vm' h => ?_
  · unfold validateVmReturnRestore at h
    repeat' split at h
    all_goals cases h
    exact hq.refl _
  · unfold validateVmReturnRestore at h
    repeat' split at h
    all_goals cases h
    all_goals exact hfault _ _

/-- A tombstone is kept where a handle is still held, and there is room for it or it has one already. -/
theorem keepTombstone_ok {handle : Nat} (h : keepTombstone handle vm = .ok u vm') :
    vm' = vm ∨ vm' = countSkipped 1 vm ∨ handle ∉ vm.consumedTaskHandles ∧ vm.consumedTaskHandles.length < taskCapacity ∧
      vm' = countSkipped 1 { vm with consumedTaskHandles := vm.consumedTaskHandles ++ [handle] } := by
  obtain ⟨_, _, hget, h⟩ := bind_ok.1 h
  cases hget
  split at h
  · obtain ⟨_, vm₁, hretain, h⟩ := bind_ok.1 h
    obtain ⟨_, _, hget, hretain⟩ := bind_ok.1 hretain
    cases hget
    cases h
    split at hretain
    · cases hretain
      exact .inr (.inl rfl)
    split at hretain
    · cases hretain
    · rename_i hnew hroom
      cases hretain
      exact .inr (.inr ⟨hnew, Nat.lt_of_not_le hroom, rfl⟩)
  · cases h
    exact .inl rfl

theorem stackPop_ok {v : Value} (h : Aivm.stackPop vm = .ok v vm') :
    vm.stack.getLast? = some v ∧ vm' = { vm with stack := vm.stack.dropLast } := by
  unfold Aivm.stackPop at h
  split at h
  · cases h
  · rename_i hlast
    cases h
    exact ⟨hlast, rfl⟩

end Looks

end Aivm
