import Aivm.Machine.Consumption
import Aivm.Workers.Workloads

/-!
# Results of workloads

`WORKER_TASK_AT` gives the task of a payload by its place in the workload. Whenever the machine awaits that task, what it
gets is what the worker of the workload makes of that payload, whatever has been submitted, awaited and released meanwhile.
-/

namespace Aivm

open VmM

/-! ## Workloads stay -/

/-- A workload later in a run: its tasks keep their places. -/
structure WorkerTaskGroup.Continues (g g' : WorkerTaskGroup) : Prop where
  handle : g'.handle = g.handle
  worker : g'.workerCatalogIndex = g.workerCatalogIndex
  payloads : g'.payloads = g.payloads
  handles : g.handles <+: g'.handles

namespace WorkerTaskGroup.Continues

variable {g g' g'' : WorkerTaskGroup}

theorem refl (g : WorkerTaskGroup) : g.Continues g := ⟨rfl, rfl, rfl, List.prefix_rfl⟩

theorem trans (h : g.Continues g') (h' : g'.Continues g'') : g.Continues g'' :=
  ⟨h'.handle.trans h.handle, h'.worker.trans h.worker, h'.payloads.trans h.payloads, h.handles.trans h'.handles⟩

theorem materialized (g : WorkerTaskGroup) (handle : Nat) : g.Continues (g.materialized handle) := by
  refine ⟨rfl, rfl, rfl, ?_⟩
  have hsame : g.handles = (g.taskHandles.set g.nextMaterializeIndex handle).take g.nextMaterializeIndex :=
    (List.take_set_of_le (Nat.le_refl _)).symm
  rw [hsame, WorkerTaskGroup.handles, WorkerTaskGroup.materialized, List.take_add_one]
  exact List.prefix_append ..

end WorkerTaskGroup.Continues

/-- Every workload continues. -/
structure Vm.ContinuesGroups (vm vm' : Vm) : Prop where
  each : ∀ g ∈ vm.workerTaskGroups, ∃ g' ∈ vm'.workerTaskGroups, g.Continues g'

namespace Vm.ContinuesGroups

variable {env : Env} {nested : Vm → Option Vm} {vm vm' vm'' : Vm}

theorem of_same (h : vm'.workerTaskGroups = vm.workerTaskGroups) : vm.ContinuesGroups vm' :=
  ⟨fun g hg => ⟨g, h ▸ hg, .refl g⟩⟩

theorem trans (h : vm.ContinuesGroups vm') (h' : vm'.ContinuesGroups vm'') : vm.ContinuesGroups vm'' := by
  refine ⟨fun g hg => ?_⟩
  obtain ⟨g', hg', hgroup⟩ := h.each g hg
  obtain ⟨g'', hg'', hgroup'⟩ := h'.each g' hg'
  exact ⟨g'', hg'', hgroup.trans hgroup'⟩

theorem chains : Chains Vm.ContinuesGroups := ⟨fun _ => of_same rfl, trans⟩

/-- The same after a change to the other parts. -/
theorem after {vm₁ : Vm} (h : vm₁.ContinuesGroups vm') (hg : vm₁.workerTaskGroups = vm.workerTaskGroups) :
    vm.ContinuesGroups vm' := (of_same hg).trans h

theorem of_untouched (h : vm.Untouched vm') : vm.ContinuesGroups vm' := by
  have hgroups := congrArg Vm.workerTaskGroups h
  exact of_same hgroups

theorem removeHandle (handle : Nat) (vm : Vm) : vm.ContinuesGroups (removeCompletedTaskSlot handle vm) := by
  unfold removeCompletedTaskSlot
  split
  · exact of_same rfl
  · exact of_same rfl

theorem noteSubmission (env : Env) (rt : WorkerRuntime) (index id : Nat) (payload : List Byte) (vm : Vm) :
    vm.ContinuesGroups (noteSubmission env rt index id payload vm) := by
  unfold Aivm.noteSubmission
  split
  · exact of_same rfl
  · exact of_same rfl

theorem keepTombstone {handle : Nat} {u} (h : keepTombstone handle vm = .ok u vm') : vm.ContinuesGroups vm' := by
  obtain rfl | rfl | ⟨-, -, rfl⟩ := keepTombstone_ok h
  · exact of_same rfl
  · exact of_same rfl
  · exact of_same rfl

theorem set_materialized {slot : Nat} {g : WorkerTaskGroup} (hg : vm.workerTaskGroups[slot]? = some g) (handle : Nat)
    (h : vm'.workerTaskGroups = vm.workerTaskGroups.set slot (g.materialized handle)) : vm.ContinuesGroups vm' := by
  refine ⟨fun g' hg' => ?_⟩
  obtain ⟨i, hi⟩ := List.mem_iff_getElem?.1 hg'
  obtain ⟨hlt, -⟩ := List.getElem?_eq_some_iff.1 hg
  by_cases hslot : i = slot
  · subst hslot
    rw [hg, Option.some.injEq] at hi
    subst hi
    refine ⟨g.materialized handle, h ▸ List.mem_iff_getElem?.2 ⟨i, ?_⟩, .materialized g handle⟩
    rw [List.getElem?_set_self hlt]
  · refine ⟨g', h ▸ List.mem_iff_getElem?.2 ⟨i, ?_⟩, .refl g'⟩
    rw [List.getElem?_set_ne (Ne.symm hslot), hi]

theorem admits : Admits env nested Vm.ContinuesGroups where
  chains := chains
  quiet hq := of_untouched (.of_quiet hq)
  fault _ _ := of_same rfl
  pair _ _ _ := of_same rfl
  stackLimit _ _ := of_same rfl
  push _ _ _ := of_same rfl
  pop _ := of_same rfl
  validate := validateCallLocalState_ends chains fun _ _ => of_same rfl
  localsLimit _ _ := of_same rfl
  store index v vm hb hl := of_untouched (Vm.Untouched.ordinary.store index v vm hb hl)
  builder _ _ _ := of_same rfl
  map _ _ _ := of_same rfl
  workerFault _ _ := of_same rfl
  invocationFault _ _ _ := of_same rfl
  finished _ _ _ _ _ _ := of_same rfl
  returned _ _ _ _ _ := of_same rfl
  abandoned _ _ _ := of_same rfl
  frameLimit _ _ := of_same rfl
  pushFrame _ _ _ _ _ := of_same rfl
  popFrame _ _ := of_same rfl
  leave _ _ _ := of_same rfl
  reuse _ _ _ _ := of_same rfl
  validateReturn := validateVmReturnRestore_ends chains fun _ _ => of_same rfl
  openPar _ _ _ := of_same rfl
  addPar _ _ _ _ := of_same rfl
  closePar _ _ := of_same rfl
  reclaimed _ _ := of_same rfl
  entered _ _ _ := of_same rfl
  started _ _ _ _ _ _ := of_same rfl
  created _ _ _ := of_same rfl
  submitted _ _ _ _ := after (noteSubmission ..) rfl
  refused _ _ _ _ := after (removeHandle ..) rfl
  unheard _ _ _ _ := after (removeHandle ..) rfl
  workload _ _ _ _ _ _ := ⟨fun g hg => ⟨g, List.mem_append_left _ hg, .refl g⟩⟩
  materialized vm _ _ hg _ _ _ := set_materialized hg vm.nextTaskHandle rfl
  canceled _ _ _ := of_same rfl
  consumed _ _ hq hkeep := trans (trans hq (keepTombstone hkeep)) (trans (removeHandle ..) (of_same rfl))
  handled _ _ _ _ := of_same rfl

theorem of_booked (hb : vm.Booked vm') : vm.ContinuesGroups vm' := by
  rw [hb.same]
  exact of_same rfl

theorem run {fuels : List Nat} (h : Runs.Run (Steps env) vm fuels vm') : vm.ContinuesGroups vm' :=
  h.keeps (P := vm.ContinuesGroups) (chains.refl vm) fun _ _ _ hg hstep => hg.trans (admits.stepWith of_booked hstep)

end Vm.ContinuesGroups

/-! ## The task at a place -/

section Results

variable {env : Env} {nested : Vm → Option Vm} {vm vm' v v' : Vm}

/-- A machine has the workload of a handle, with a task for the payload at an index. -/
structure Vm.HasTaskAt (vm : Vm) (group index handle workerIndex : Nat) (payload : List Byte) : Prop where
  has : ∃ g ∈ vm.workerTaskGroups, g.handle = group ∧ g.workerCatalogIndex = workerIndex ∧ g.payloads[index]? = some payload ∧
    g.handles[index]? = some handle

theorem Vm.HasTaskAt.continues {group index handle workerIndex : Nat} {payload : List Byte}
    (h : vm.HasTaskAt group index handle workerIndex payload) (hc : vm.ContinuesGroups vm') :
    vm'.HasTaskAt group index handle workerIndex payload := by
  obtain ⟨g, hg, hgroup, hworker, hpayload, hhandle⟩ := h.has
  obtain ⟨g', hg', hcontinues⟩ := hc.each g hg
  obtain ⟨rest, hrest⟩ := hcontinues.handles
  refine ⟨g', hg', hcontinues.handle.trans hgroup, hcontinues.worker.trans hworker, hcontinues.payloads ▸ hpayload, ?_⟩
  rw [← hrest, List.getElem?_append_left (List.getElem?_eq_some_iff.1 hhandle).1, hhandle]

/-- The tasks of a workload stand at the places of their payloads. -/
theorem Vm.WorkloadsKept.hasTaskAt (h : vm.WorkloadsKept) {group index handle : Nat}
    (hfind : ((vm.workerTaskGroups.find? fun g => g.handle = group).bind fun g => g.taskHandles[index]?) = some handle)
    (hne : handle ≠ 0) : ∃ workerIndex payload, vm.HasTaskAt group index handle workerIndex payload := by
  obtain ⟨g, hg, hat⟩ := Option.bind_eq_some_iff.1 hfind
  have hmem := List.mem_of_find?_eq_some hg
  have hgroup : g.handle = group := by simpa using List.find?_some hg
  have harranged := h.arranged g hmem
  obtain ⟨hlt, -⟩ := List.getElem?_eq_some_iff.1 hat
  -- A place without a task holds 0.
  have hmaterialized : index < g.nextMaterializeIndex := by
    refine Nat.lt_of_not_le fun hle => hne (harranged.rest handle ?_)
    refine List.mem_iff_getElem?.2 ⟨index - g.nextMaterializeIndex, ?_⟩
    rw [List.getElem?_drop, Nat.add_sub_cancel' hle, hat]
  have hpayload := List.getElem?_eq_getElem (harranged.full ▸ hlt)
  refine ⟨g.workerCatalogIndex, _, ⟨g, hmem, hgroup, rfl, hpayload, ?_⟩⟩
  rw [WorkerTaskGroup.handles, List.getElem?_take_of_lt hmaterialized, hat]

/-- `WORKER_TASK_AT` leaves the task of the payload at the index. -/
theorem workerTaskAt_ok (h : vm.WorkloadsKept) {u} (hat : workerTaskAt vm = .ok u vm') :
    ∃ (below : List Value) (group : Nat) (index : Int) (handle workerIndex : Nat) (payload : List Byte),
      vm.stack = below ++ [.workerTasks group, .int index] ∧ 0 ≤ index ∧ vm'.stack = below ++ [.task handle] ∧
      vm'.HasTaskAt group index.toNat handle workerIndex payload := by
  obtain ⟨top, vm₁, hpop, hrest⟩ := bind_ok.1 hat
  obtain ⟨hlast, rfl⟩ := stackPop_ok hpop
  obtain ⟨second, vm₂, hpop', hrest⟩ := bind_ok.1 hrest
  obtain ⟨hlast', rfl⟩ := stackPop_ok hpop'
  obtain ⟨below, hstack⟩ : ∃ below, vm.stack = below ++ [second, top] := by
    obtain ⟨below₁, h₁⟩ := List.getLast?_eq_some_iff.1 hlast
    have h₂ : vm.stack.dropLast.getLast? = some second := hlast'
    rw [h₁, List.dropLast_concat] at h₂
    obtain ⟨below, rfl⟩ := List.getLast?_eq_some_iff.1 h₂
    exact ⟨below, by simp [h₁]⟩
  split at hrest
  · rename_i group index _
    split at hrest
    · cases hrest
    rename_i hindex
    obtain ⟨_, _, hget, hrest⟩ := bind_ok.1 hrest
    cases hget
    dsimp only at hrest
    cases hfind : (vm.workerTaskGroups.find? fun g => g.handle = group).bind fun g => g.taskHandles[index.toNat]? with
    | none =>
        rw [hfind] at hrest
        cases hrest
    | some handle =>
        rw [hfind] at hrest
        by_cases hne : handle = 0
        · subst hne
          cases hrest
        have hpushes : (do stackPush (.task handle); advance : VmM Unit)
            { vm with stack := vm.stack.dropLast.dropLast } = .ok u vm' := by
          cases handle with
          | zero => exact absurd rfl hne
          | succ handle => exact hrest
        obtain ⟨_, vm₃, hpush, hadvance⟩ := bind_ok.1 hpushes
        cases hadvance
        obtain ⟨workerIndex, payload, hhas⟩ := h.hasTaskAt hfind hne
        have hbelow : vm.stack.dropLast.dropLast = below := by simp [hstack]
        have hpushed : vm₃.stack = below ++ [.task handle] := by
          rw [(stackPush_ok hpush).1]
          exact congrArg (· ++ [Value.task handle]) hbelow
        have hordinary : Ordinary Vm.ContinuesGroups :=
          (Vm.ContinuesGroups.admits : Admits .generous (fun _ => none) Vm.ContinuesGroups).toOrdinary
        have hkept : Vm.ContinuesGroups { vm with stack := vm.stack.dropLast.dropLast } vm₃ := (hordinary.stackPush _).ok hpush
        have hgroups : vm.ContinuesGroups vm₃ := .after hkept rfl
        have hhas₃ := hhas.continues hgroups
        exact ⟨below, group, index, handle, workerIndex, payload, hstack, Int.not_lt.1 hindex, hpushed, ⟨hhas₃.has⟩⟩
  · cases hrest

/-- The submission of a payload to a worker. -/
def Vm.Submitted (vm : Vm) (rt : WorkerRuntime) (s : WorkerRuntimeTask) (handle workerIndex : Nat) (payload : List Byte) : Prop :=
  vm.workerRuntime = some rt ∧ s ∈ rt.tasks ∧ s.order = (handle, workerIndex, payload)

/-- A task of a workload is completed by its submission: with what the worker makes of the payload, or with a node that
says that it has been canceled. -/
theorem completeWorkerTask_ok (h : vm.WorkloadsKept) {group index handle workerIndex slot : Nat} {payload : List Byte}
    (hhas : vm.HasTaskAt group index handle workerIndex payload) {u}
    (hcomplete : completeWorkerTask env nested slot handle vm = .ok u vm') {t : CompletedTask Vm}
    (ht : vm.completedTasks[slot]? = some t) :
    ∃ t' rt s, vm'.completedTasks[slot]? = some t' ∧ vm.Submitted rt s handle workerIndex payload ∧
      ((s.canceled = true ∧ t'.state = .canceled) ∨
        ∃ data d, runSubmission env nested rt s = some (.completed data) ∧ t'.result = .bytes d data.length ∧
          vm'.bytesAt d data.length = some data) := by
  obtain ⟨_, _, hget, hrest⟩ := bind_ok.1 hcomplete
  cases hget
  cases hrt : vm.workerRuntime with
  | none =>
      rw [hrt] at hrest
      cases hrest
  | some rt =>
      rw [hrt] at hrest
      obtain ⟨s, vm₁, hfind, hends⟩ := bind_ok.1 hrest
      obtain ⟨hfound, rfl⟩ := deref_ok.1 hfind
      have hs := List.mem_of_find?_eq_some hfound
      have hid : s.submissionId = handle := by simpa using List.find?_some hfound
      have horder : s.order ∈ vm₁.ordered := by
        rw [Vm.ordered, hrt]
        exact List.mem_map_of_mem hs
      obtain ⟨g, hg, -, hworker, hpayload, hhandle⟩ := hhas.has
      obtain ⟨hindex, hcarried⟩ := h.carried g hg index handle hhandle s.order horder hid
      rw [hpayload, Option.some.injEq] at hcarried
      have hsubmitted : vm₁.Submitted rt s handle workerIndex payload := by
        refine ⟨hrt, hs, ?_⟩
        rw [WorkerRuntimeTask.order, hid, hcarried, ← hworker, ← hindex]
        rfl
      have hwritten : ∀ {vm₂ vm₃ : Vm} {u} result state, vm₁.Untouched vm₂ →
          (VmM.modify fun vm => releaseSubmission handle
            (modifyTask slot (fun t => { t with result := result, state := state }) vm)) vm₂ = .ok u vm₃ →
          vm₃.toHeap = vm₂.toHeap ∧ ∃ t', vm₃.completedTasks[slot]? = some t' ∧ t'.result = result ∧ t'.state = state := by
        intro vm₂ vm₃ u result state hu hmodify
        cases hmodify
        obtain ⟨t₂, ht₂, -⟩ := hu.task ht
        refine ⟨rfl, { t₂ with result := result, state := state }, ?_, rfl, rfl⟩
        simp [releaseSubmission, modifyTask, ht₂]
      by_cases hcanceled : s.canceled = true
      · rw [if_pos hcanceled] at hends
        obtain ⟨k, vm₂, hk, hmodify⟩ := bind_ok.1 hends
        obtain ⟨-, t', ht', -, hstate⟩ := hwritten _ _ (Vm.Untouched.ordinary.routine _ |>.ok hk) hmodify
        exact ⟨t', rt, s, ht', hsubmitted, .inl ⟨hcanceled, hstate⟩⟩
      · rw [if_neg hcanceled] at hends
        obtain ⟨result, vm₂, hrun, hlast⟩ := bind_ok.1 hends
        obtain ⟨hran, rfl⟩ := deref_ok.1 hrun
        cases result with
        | completed data =>
            obtain ⟨d, vm₃, halloc, hmodify⟩ := bind_ok.1 hlast
            have hd := onFail_ok.1 halloc
            obtain ⟨hheap, t', ht', hresult, -⟩ := hwritten _ _ (Vm.Untouched.ordinary.bytesArenaAlloc _ |>.ok hd) hmodify
            refine ⟨t', rt, s, ht', hsubmitted, .inr ⟨data, d, hran, hresult, ?_⟩⟩
            rw [hheap]
            exact (bytesArenaAlloc_ok hd).2.1
        | transportError detail => cases onFail_ok.1 hlast
        | failed detail => cases onFail_ok.1 hlast

/-- What the worker makes of a payload, in a state where the result can be read; or the error that says that the
submission has been canceled. -/
def Vm.Yields (env : Env) (nested : Vm → Option Vm) (rt : WorkerRuntime) (s : WorkerRuntimeTask)
    (result : Value) (vm : Vm) : Prop :=
  (s.canceled = true ∧ ∃ k n, result = .node k ∧ vm.lookupNode k = some n ∧ vm.cstr n.kind = some (ascii "Err")) ∨
    ∃ data d, runSubmission env nested rt s = some (.completed data) ∧ result = .bytes d data.length ∧
      vm.bytesAt d data.length = some data

theorem taskTerminalPayloadIsValid_canceled {t : CompletedTask Vm} (hs : t.state = .canceled)
    (h : taskTerminalPayloadIsValid vm t = some true) :
    ∃ k n, t.result = .node k ∧ vm.lookupNode k = some n ∧ vm.cstr n.kind = some (ascii "Err") := by
  unfold taskTerminalPayloadIsValid at h
  rw [if_pos (.inr hs)] at h
  split at h
  · rename_i k hresult
    cases hn : vm.lookupNode k with
    | none => simp [hn] at h
    | some n =>
        rw [hn] at h
        obtain ⟨kind, hkind, hErr⟩ := Option.map_eq_some_iff.1 h
        have hsame : kind = ascii "Err" := by simpa using hErr
        exact ⟨k, n, hresult, hn, hsame ▸ hkind⟩
  · cases h

/-- The search for the result of a task of a workload that still waits finds what its submission yields. -/
theorem findTerminalTaskResult_ok (h : vm.WorkloadsKept) {group index handle workerIndex slot : Nat} {payload : List Byte}
    (hhas : vm.HasTaskAt group index handle workerIndex payload) (hslot : taskSlot vm handle = some slot) {t : CompletedTask Vm}
    (ht : vm.completedTasks[slot]? = some t) (hw : t.waits = true) {result : Value}
    (hfind : findTerminalTaskResult env nested handle vm = .ok result vm') :
    ∃ rt s, vm.Submitted rt s handle workerIndex payload ∧ vm'.Yields env nested rt s result := by
  obtain ⟨hpending, hworker⟩ : t.state = .pending ∧ t.isWorkerTask = true := by simpa [CompletedTask.waits] using hw
  obtain ⟨_, _, hget, hrest⟩ := bind_ok.1 hfind
  cases hget
  rw [hslot] at hrest
  obtain ⟨_, vm₁, hderef, hrest⟩ := bind_ok.1 hrest
  obtain ⟨hfound, rfl⟩ := deref_ok.1 hderef
  rw [ht, Option.some.injEq] at hfound
  subst hfound
  rw [if_pos hpending] at hrest
  obtain ⟨_, vm₂, hcomplete, hends⟩ := bind_ok.1 hrest
  unfold completePendingBytecodeTask at hcomplete
  rw [if_pos hworker, Vm.TasksMatched.taskSlot_handle hslot ht] at hcomplete
  obtain ⟨t', rt, s, ht', hsubmitted, hmade⟩ := completeWorkerTask_ok h hhas hcomplete ht
  refine ⟨rt, s, hsubmitted, ?_⟩
  obtain ⟨_, _, hget, hends⟩ := bind_ok.1 hends
  cases hget
  obtain ⟨_, vm₃, hderef, hends⟩ := bind_ok.1 hends
  obtain ⟨hfound, rfl⟩ := deref_ok.1 hderef
  rw [ht', Option.some.injEq] at hfound
  subst hfound
  split at hends
  · obtain ⟨valid, vm₄, hderef, hlast⟩ := bind_ok.1 hends
    obtain ⟨hvalid, rfl⟩ := deref_ok.1 hderef
    split at hlast
    · rename_i hyes
      cases hlast
      rcases hmade with ⟨hcanceled, hstate⟩ | hmade
      · exact .inl ⟨hcanceled, taskTerminalPayloadIsValid_canceled hstate (hyes ▸ hvalid)⟩
      · exact .inr hmade
    · cases hlast
  · unfold findTerminalTaskResult.notFound at hends
    split at hends
    · cases hends
    · cases hends

/-- `WORKER_TASK_AT` leaves the task that runs the payload at the index of the workload; whenever the machine looks for the
result of this task while it waits, it finds what the worker of the workload makes of this payload. -/
theorem Arises.workload_results {i : Instruction} {fuel : Nat} (h : Arises env vm) (hgoes : vm.stopped = false)
    (hi : vm.program.instructions[vm.instructionPointer]? = some i) (hop : i.opcode = .workerTaskAt)
    (hstep : step env fuel vm = some v) (hgoes' : v.stopped = false) :
    ∃ below group index handle workerIndex payload, vm.stack = below ++ [.workerTasks group, .int index] ∧ 0 ≤ index ∧
      v.stack = below ++ [.task handle] ∧ v.HasTaskAt group index.toNat handle workerIndex payload ∧
      ∀ fuels w, Runs.Run (Steps env) v fuels w → ∀ slot t, taskSlot w handle = some slot → w.completedTasks[slot]? = some t →
        t.waits = true → ∀ nested result w', findTerminalTaskResult env nested handle w = .ok result w' →
        ∃ rt s, w.Submitted rt s handle workerIndex payload ∧ w'.Yields env nested rt s result := by
  obtain hs | ⟨u, vm₁, hok, rfl⟩ := step_executes hgoes hi hstep
  · rw [hs] at hgoes'
    cases hgoes'
  have hat : workerTaskAt (beginStep i vm) = .ok u vm₁ := by
    unfold execute at hok
    simpa only [hop] using hok
  have harise : ∀ {w}, Arises env w → w.WorkloadsKept :=
    Admits.arises (fun _ => Vm.WorkloadsKept.admits) Vm.WorkloadsKept.survives
  have hkept : (beginStep i vm).WorkloadsKept := Vm.WorkloadsKept.survives.booked (.begins i hgoes) (harise h)
  obtain ⟨below, group, index, handle, workerIndex, payload, hstack, hindex, hpushed, hhas⟩ := workerTaskAt_ok hkept hat
  have hhas' : (settle vm₁).HasTaskAt group index.toNat handle workerIndex payload :=
    hhas.continues (.of_booked (.settles vm₁))
  have hstack' : (settle vm₁).stack = below ++ [.task handle] := by
    rw [(Vm.Booked.settles vm₁).same]
    exact hpushed
  refine ⟨below, group, index, handle, workerIndex, payload, hstack, hindex, hstack', hhas', ?_⟩
  intro fuels w hrun slot t hslot ht hw nested result w' hfind
  have harises : Arises env w := run_arises (.stepped h hstep) hrun
  exact findTerminalTaskResult_ok (harise harises) (hhas'.continues (.run hrun)) hslot ht hw hfind

/-- The task of the second payload. -/
theorem workload_second : ∃ vm v, workload 6 = some vm ∧ workload 7 = some v ∧
    ∃ below group index handle workerIndex payload, vm.stack = below ++ [.workerTasks group, .int index] ∧ 0 ≤ index ∧
      v.stack = below ++ [.task handle] ∧ v.HasTaskAt group index.toNat handle workerIndex payload ∧
      ∀ fuels w, Runs.Run (Steps .threaded) v fuels w → ∀ slot t, taskSlot w handle = some slot →
        w.completedTasks[slot]? = some t →
        t.waits = true → ∀ nested result w', findTerminalTaskResult .threaded nested handle w = .ok result w' →
        ∃ rt s, w.Submitted rt s handle workerIndex payload ∧ w'.Yields .threaded nested rt s result := by
  have hat : (workload 6).map (fun vm => (vm.stopped, vm.program.instructions[vm.instructionPointer]?)) =
      some (false, some ⟨.workerTaskAt, 0⟩) := by decide +kernel
  have hnext : (workload 7).map (·.stopped) = some false := by decide +kernel
  obtain ⟨vm, hvm, h⟩ := Option.map_eq_some_iff.1 hat
  obtain ⟨v, hv, hgoes⟩ := Option.map_eq_some_iff.1 hnext
  simp only [Prod.mk.injEq] at h
  have hstep : step .threaded 9 vm = some v := by simpa [Trails.iterate] using Trails.iterate_between (n := 1) hvm hv
  exact ⟨vm, v, hvm, hv, Arises.workload_results (workload_arises hvm) h.1 h.2 rfl hstep hgoes⟩

end Results

end Aivm
