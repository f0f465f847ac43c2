import Aivm.Machine.Lemmas.Ordinary
import Aivm.Machine.Tasks

/-!
# What the search for a task's result does

A pending task is completed by the await that wants its result: the worker of the task is run, and its result, or the
reason why there is none, is brought home. Besides what ordinary instructions do this changes the task in its slot and
the submissions of the worker runtime.
-/

namespace Aivm

open VmM

/-- A relation that admits what an await does to find the result of a task. -/
structure Awaits (env : Env) (nested : Vm → Option Vm) (Q : Vm → Vm → Prop) : Prop extends Ordinary Q where
  workerFault : ∀ f vm, Q vm (setVmError (Aivm.workerFault f) vm)
  invocationFault : ∀ {rt t detail} vm, vm.workerRuntime = some rt →
    runSubmission env nested rt t = some (.failed detail) → Q vm (setVmError ⟨.invalidProgram, detail⟩ vm)
  finished : ∀ {slot t state} result vm, vm.completedTasks[slot]? = some t → t.state = .pending → t.isWorkerTask = true →
    state ≠ .pending → Q vm (releaseSubmission t.handle
      (modifyTask slot (fun t => { t with result := result, state := state }) vm))
  returned : ∀ {slot t} result vm, vm.completedTasks[slot]? = some t → t.state = .pending → t.isWorkerTask = false →
    Q vm (modifyTask slot (fun t => { t with result := result, state := .completed, workerContext := none }) vm)
  abandoned : ∀ handle vm, vm.status = .error → Q vm (releaseSubmission handle vm)

/-- An error that a failed operation has left. -/
def Vm.Failed (vm : Vm) : Prop := vm.status = .error

section Failures

variable {env : Env} {vm vm' : Vm} {α : Type}

theorem onFail_fail {f : Vm → Vm} {x : VmM α} (h : VmM.onFail f x vm = .fail vm') :
    ∃ vm₁, x vm = .fail vm₁ ∧ vm' = f vm₁ := by
  unfold VmM.onFail at h
  split at h
  · rename_i vm₁ hx
    cases h
    exact ⟨vm₁, hx, rfl⟩
  · rename_i hne
    exact absurd h (hne vm')

theorem admitHostMemoryGrowth_fail {growth : Nat} (h : admitHostMemoryGrowth env growth vm = .fail vm') : vm'.Failed := by
  unfold admitHostMemoryGrowth at h
  split at h
  · split at h
    · cases h
    · cases h
      rfl
  · cases h

theorem growBytesArenaLimit_fail {needed fuel : Nat} : ∀ {vm},
    growBytesArenaLimit env needed fuel vm = .fail vm' → vm'.Failed := by
  induction fuel with
  | zero =>
      intro vm h
      cases h
  | succ fuel ih =>
      intro vm h
      obtain h | ⟨_, _, hget, h⟩ := bind_fail.1 h
      · cases h
      cases hget
      split at h
      · obtain h | ⟨_, _, -, h⟩ := bind_fail.1 h
        · exact admitHostMemoryGrowth_fail h
        obtain h | ⟨_, _, -, h⟩ := bind_fail.1 h
        · cases h
        · exact ih h
      · cases h

/-- An allocation of bytes that fails has set an error. -/
theorem bytesArenaAlloc_fail {data : List Byte} (h : bytesArenaAlloc env data vm = .fail vm') : vm'.Failed := by
  obtain h | ⟨_, _, hget, h⟩ := bind_fail.1 h
  · cases h
  cases hget
  obtain h | ⟨_, vm₁, -, h⟩ := bind_fail.1 h
  · obtain ⟨vm₁, hgrow, rfl⟩ := onFail_fail h
    have hf : vm₁.Failed := growBytesArenaLimit_fail hgrow
    exact hf
  obtain h | ⟨_, _, hget, h⟩ := bind_fail.1 h
  · cases h
  cases hget
  split at h
  · obtain h | ⟨_, _, -, h⟩ := bind_fail.1 h
    · obtain ⟨vm₂, hthrow, rfl⟩ := onFail_fail h
      cases hthrow
      rfl
    · cases h
  · cases h

end Failures

section Shapes

variable {vm vm' : Vm} {slot : Nat} {t : CompletedTask Vm}

/-- A task is found where it was, with what a collection does not change. -/
theorem Vm.Untouched.task (h : vm.Untouched vm') (ht : vm.completedTasks[slot]? = some t) :
    ∃ t', vm'.completedTasks[slot]? = some t' ∧ t'.handle = t.handle ∧ t'.state = t.state ∧
      t'.isWorkerTask = t.isWorkerTask := by
  have hslot := congrArg (fun ts : List (CompletedTask Vm) => ts[slot]?) h.tasks
  simp only [List.getElem?_map, ht, Option.map_some, Option.map_eq_some_iff] at hslot
  obtain ⟨t', ht', hs⟩ := hslot
  refine ⟨t', ht', ?_⟩
  simp only [CompletedTask.shape, CompletedTask.mk.injEq] at hs
  exact ⟨hs.2.1, hs.1, hs.2.2.2.2.2⟩

theorem Vm.Untouched.workerRuntime (h : vm.Untouched vm') : vm'.workerRuntime = vm.workerRuntime := by
  have ha := congrArg Vm.workerRuntime h
  exact ha

end Shapes

namespace Awaits

variable {env : Env} {nested : Vm → Option Vm} {Q : Vm → Vm → Prop} {vm vm' : Vm} {α : Type}

theorem attempt (_ : Awaits env nested Q) {x : VmM α} (hx : Ends Q x vm) : Ends Q (VmM.attempt x) vm := by
  intro vm' h
  unfold VmM.attempt at h
  cases hr : x vm with
  | ok a vm₁ =>
      simp only [hr, Outcome.state?, Option.some.injEq] at h
      exact h ▸ hx.ok hr
  | fail vm₁ =>
      simp only [hr, Outcome.state?, Option.some.injEq] at h
      exact h ▸ hx.fail hr
  | undefined => simp [hr, Outcome.state?] at h

/-- The result of an invocation names the transport in one way only. -/
theorem runSubmission_transport {rt : WorkerRuntime} {t : WorkerRuntimeTask} {detail : String}
    (h : runSubmission env nested rt t = some (.transportError detail)) : detail = "Worker result must be bytes." := by
  have hresult : ∀ {vm : Vm}, invocationResult env vm = some (.transportError detail) →
      detail = "Worker result must be bytes." := by
    intro vm h
    unfold invocationResult at h
    split at h
    · cases h
    split at h
    · split at h
      · cases h
        rfl
      split at h
      · cases h
      · obtain ⟨_, _, h⟩ := Option.map_eq_some_iff.1 h
        cases h
    · cases h
      rfl
  obtain ⟨p, -, h⟩ := Option.bind_eq_some_iff.1 h
  unfold workerInvocationRun at h
  split at h
  · cases h
  · obtain ⟨_, -, h⟩ := Option.bind_eq_some_iff.1 h
    obtain ⟨_, -, h⟩ := Option.bind_eq_some_iff.1 h
    exact hresult h

theorem completeWorkerTask (hc : Awaits env nested Q) {slot : Nat} {t : CompletedTask Vm}
    (ht : vm.completedTasks[slot]? = some t) (hp : t.state = .pending) (hw : t.isWorkerTask = true) :
    Ends Q (Aivm.completeWorkerTask env nested slot t.handle) vm := by
  have hkeep : ∀ {vm₁ vm₂ : Vm}, vm₁.Untouched vm₂ → vm₁ = vm → ∀ result state, state ≠ .pending →
      Ends Q (VmM.modify fun vm => releaseSubmission t.handle
        (modifyTask slot (fun t => { t with result := result, state := state }) vm)) vm₂ := by
    rintro vm₁ vm₂ hu rfl result state hstate
    obtain ⟨t', ht', hh, hs, hk⟩ := hu.task ht
    have hq := hc.finished result vm₂ ht' (hs.trans hp) (hk.trans hw) hstate
    rw [hh] at hq
    exact .modify hq
  refine .get_bind ?_
  split
  · exact .giveUp hc.chains
  rename_i rt hrt
  refine .bind hc.chains (.deref hc.chains _) fun s vm₁ h => ?_
  obtain ⟨hs, rfl⟩ := deref_ok.1 h
  refine .ite (fun _ => ?_) fun _ => ?_
  · refine .bind hc.chains (hc.routine _) fun k vm₂ hk => ?_
    exact hkeep (Vm.Untouched.ordinary.routine _ |>.ok hk) rfl _ _ (by simp)
  refine .bind hc.chains (.deref hc.chains _) fun result vm₂ h => ?_
  obtain ⟨hr, rfl⟩ := deref_ok.1 h
  cases result with
  | completed data =>
      refine .bind hc.chains ?_ fun d vm₃ hd => ?_
      · exact .onFail hc.chains (hc.bytesArenaAlloc _) fun vm' hf => hc.abandoned _ vm' (bytesArenaAlloc_fail hf)
      · exact hkeep (Vm.Untouched.ordinary.bytesArenaAlloc _ |>.ok (onFail_ok.1 hd)) rfl _ _ (by simp)
  | transportError detail =>
      rw [runSubmission_transport hr]
      refine .onFail hc.chains (hc.throw (.of_head (by simp) (c := 'W') (by simp) (by simp))) fun vm' hf => ?_
      cases hf
      exact hc.abandoned _ _ rfl
  | failed detail =>
      refine .onFail hc.chains (.throw (hc.invocationFault _ hrt hr)) fun vm' hf => ?_
      cases hf
      exact hc.abandoned _ _ rfl

theorem completePendingBytecodeTask (hc : Awaits env nested Q) {slot : Nat} {t : CompletedTask Vm}
    (ht : vm.completedTasks[slot]? = some t) (hp : t.state = .pending) :
    Ends Q (Aivm.completePendingBytecodeTask env nested slot t) vm := by
  refine .ite (fun hw => hc.completeWorkerTask ht hp hw) fun hw => ?_
  split
  · exact .pure hc.chains ()
  refine .bind hc.chains (.deref hc.chains _) fun worker vm₁ h => ?_
  obtain ⟨-, rfl⟩ := deref_ok.1 h
  split
  · exact .throw (hc.workerFault _ _)
  · refine .bind hc.chains (hc.copyWorkerBoundaryValue _ _ _) fun w vm₂ h => ?_
    obtain ⟨t', ht', -, hs, hk⟩ := (Vm.Untouched.ordinary.copyWorkerBoundaryValue _ _ _ |>.ok h).task ht
    exact .modify (hc.returned w vm₂ ht' (hs.trans hp) (hk.trans (by simpa using hw)))

theorem notFound (hc : Awaits env nested Q) (handle : Nat) (seen : Vm) :
    Ends Q (findTerminalTaskResult.notFound handle seen) vm :=
  .ite (fun _ => hc.throw (.of_head (by simp) (c := 'T') (by simp) (by simp))) fun _ => .giveUp hc.chains

theorem findTerminalTaskResult (hc : Awaits env nested Q) (handle : Nat) :
    Ends Q (Aivm.findTerminalTaskResult env nested handle) vm := by
  refine .get_bind ?_
  split
  · exact hc.notFound _ _
  rename_i slot _
  have hlast : ∀ vm, Ends Q (do
      let vm ← VmM.get
      let t ← VmM.deref vm.completedTasks[slot]?
      if t.state.isTerminal then
        if ← VmM.deref (taskTerminalPayloadIsValid vm t) then
          return t.result
        else
          VmM.throw ⟨.invalidProgram, "Terminal failed/canceled task requires Err node result."⟩
      else
        findTerminalTaskResult.notFound handle vm) vm := by
    intro vm
    refine .get_bind (hc.bind (.deref hc.chains _) fun t vm₁ => .ite (fun _ => ?_) fun _ => hc.notFound _ _)
    refine hc.bind (.deref hc.chains _) fun valid vm₂ => .ite (fun _ => .pure hc.chains _) fun _ => ?_
    exact hc.throw (.of_head (by simp) (c := 'T') (by simp) (by simp))
  refine .bind hc.chains (.deref hc.chains _) fun t vm₁ h => ?_
  obtain ⟨ht, rfl⟩ := deref_ok.1 h
  exact .ite (fun hp => hc.bind (hc.completePendingBytecodeTask ht hp) fun _ => hlast) fun _ => hlast _

end Awaits

/-! ## What an await leaves alone -/

/-- A task without what an await may change. -/
def CompletedTask.bare {W : Type} (t : CompletedTask W) : CompletedTask W :=
  { t with state := .pending, result := .void, workerContext := none }

/-- The parts of a machine that the search for a result does not change. -/
def Vm.apart (vm : Vm) : Vm :=
  { vm.aside with completedTasks := vm.completedTasks.map CompletedTask.bare, workerRuntime := none }

/-- None of these parts has changed. -/
def Vm.Awaited (vm vm' : Vm) : Prop := vm'.apart = vm.apart

theorem map_bare_of_shape {ts ts' : List (CompletedTask Vm)} (h : ts'.map CompletedTask.shape = ts.map CompletedTask.shape) :
    ts'.map CompletedTask.bare = ts.map CompletedTask.bare := by
  have hb := congrArg (List.map CompletedTask.bare) h
  rw [List.map_map, List.map_map] at hb
  exact hb

namespace Vm.Awaited

variable {env : Env} {nested : Vm → Option Vm} {vm vm' : Vm}

theorem of_untouched (h : vm.Untouched vm') : vm.Awaited vm' := by
  have ha := congrArg (fun a : Vm => { a
    with completedTasks := vm.completedTasks.map CompletedTask.bare, workerRuntime := none }) h
  have ht := map_bare_of_shape h.tasks
  unfold Vm.Awaited Vm.apart
  rw [ht]
  exact ha

theorem modifyTask_bare {slot : Nat} {f : CompletedTask Vm → CompletedTask Vm} (hf : ∀ t, (f t).bare = t.bare) (vm : Vm) :
    (modifyTask slot f vm).completedTasks.map CompletedTask.bare = vm.completedTasks.map CompletedTask.bare := by
  refine List.ext_getElem? fun i => ?_
  simp only [modifyTask, List.getElem?_map, List.getElem?_modify]
  cases vm.completedTasks[i]? with
  | none => simp
  | some t =>
      by_cases hi : slot = i
      · simp [hi, hf]
      · simp [hi]

theorem of_modifyTask {slot : Nat} {f : CompletedTask Vm → CompletedTask Vm} (hf : ∀ t, (f t).bare = t.bare) (vm : Vm) :
    vm.Awaited (modifyTask slot f vm) := by
  have ht : (modifyTask slot f vm).completedTasks.map CompletedTask.bare = vm.completedTasks.map CompletedTask.bare :=
    modifyTask_bare hf vm
  unfold Vm.Awaited Vm.apart
  rw [ht]
  rfl

theorem of_release (handle : Nat) (vm : Vm) : vm.Awaited (releaseSubmission handle vm) := rfl

theorem chains : Chains Vm.Awaited := ⟨fun _ => rfl, fun h h' => h'.trans h⟩

theorem awaits : Awaits env nested Vm.Awaited where
  chains := chains
  quiet h := of_untouched (Vm.Untouched.of_quiet h)
  fault _ _ := rfl
  pair _ _ _ := rfl
  stackLimit _ _ := rfl
  push _ _ _ := rfl
  pop _ := rfl
  validate opName vm := (Vm.Untouched.ordinary.validate opName vm).mono fun _ => of_untouched
  localsLimit _ _ := rfl
  store index v vm h h' := of_untouched (Vm.Untouched.ordinary.store index v vm h h')
  builder _ _ _ := rfl
  map _ _ _ := rfl
  workerFault _ _ := rfl
  invocationFault _ _ _ := rfl
  finished _ vm _ _ _ _ := by
    refine chains.trans (of_modifyTask ?_ vm) (of_release _ _)
    exact fun _ => rfl
  returned _ vm _ _ _ := by
    refine of_modifyTask ?_ vm
    exact fun _ => rfl
  abandoned handle vm _ := of_release handle vm

theorem program (h : vm.Awaited vm') : vm'.program = vm.program := by
  have ha := congrArg Vm.program h
  exact ha

theorem instructionPointer (h : vm.Awaited vm') : vm'.instructionPointer = vm.instructionPointer := by
  have ha := congrArg Vm.instructionPointer h
  exact ha

theorem parContexts (h : vm.Awaited vm') : vm'.parContexts = vm.parContexts := by
  have ha := congrArg Vm.parContexts h
  exact ha

/-- The table holds the same tasks. -/
theorem handles (h : vm.Awaited vm') : vm'.completedTasks.map (·.handle) = vm.completedTasks.map (·.handle) := by
  have ht : vm'.completedTasks.map CompletedTask.bare = vm.completedTasks.map CompletedTask.bare :=
    congrArg Vm.completedTasks h
  have hh := congrArg (List.map (·.handle)) ht
  rw [List.map_map, List.map_map] at hh
  exact hh

theorem nextTaskHandle (h : vm.Awaited vm') : vm'.nextTaskHandle = vm.nextTaskHandle := by
  have ha := congrArg Vm.nextTaskHandle h
  exact ha

end Vm.Awaited

end Aivm
