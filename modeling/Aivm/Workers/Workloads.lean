import Aivm.Lib.Slots
import Aivm.Machine.TaskTable
import Aivm.Program.Format

/-!
# Workloads

`WORKER_RUN_ALL` accepts a workload whole and submits its payloads one after the other, as the task table has room. The
place of a payload in its workload is the place of its task: whoever asks for the task at an index gets the one that
runs the payload there, on the worker that the workload is for.
-/

namespace Aivm

open VmM

/-- What a submission is for: its handle, its worker and its payload. -/
def WorkerRuntimeTask.order (t : WorkerRuntimeTask) : Nat × Nat × List Byte := (t.submissionId, t.workerCatalogIndex, t.payload)

/-- The submissions of a machine that have not been released. -/
def Vm.ordered (vm : Vm) : List (Nat × Nat × List Byte) :=
  (vm.workerRuntime.map fun rt => rt.tasks.map WorkerRuntimeTask.order).getD []

/-- The handles of the tasks that a workload has so far. -/
def WorkerTaskGroup.handles (g : WorkerTaskGroup) : List Nat := g.taskHandles.take g.nextMaterializeIndex

/-- A workload has a place for every payload, and tasks for the first of them. -/
structure WorkerTaskGroup.Arranged (g : WorkerTaskGroup) (next : Nat) : Prop where
  nonempty : g.payloads ≠ []
  full : g.taskHandles.length = g.payloads.length
  within : g.nextMaterializeIndex ≤ g.payloads.length
  ordered : InOrder g.handles next
  rest : ∀ handle ∈ g.taskHandles.drop g.nextMaterializeIndex, handle = 0

/-- The workloads of a machine, its task handles, its submissions and its account of both. -/
structure Workloads (groups : List WorkerTaskGroup) (nextGroup next : Nat) (submissions : List (Nat × Nat × List Byte))
    (taskCount inputBytes : Nat) : Prop where
  issued : InOrder (groups.map (·.handle)) nextGroup
  positive : 0 < next
  arranged : ∀ g ∈ groups, g.Arranged next
  apart : groups.Pairwise fun g g' => ∀ handle ∈ g.handles, handle ∉ g'.handles
  submitted : ∀ s ∈ submissions, s.1 < next
  carried : ∀ g ∈ groups, ∀ (i handle : Nat), g.handles[i]? = some handle → ∀ s ∈ submissions, s.1 = handle →
    s.2.1 = g.workerCatalogIndex ∧ g.payloads[i]? = some s.2.2
  counted : taskCount = (groups.map (·.payloads.length)).sum
  weighed : inputBytes = (groups.map fun g => batchBytes g.payloads).sum

/-- The workloads of a machine are in order. -/
def Vm.WorkloadsKept (vm : Vm) : Prop :=
  Workloads vm.workerTaskGroups vm.nextWorkerTaskGroupHandle vm.nextTaskHandle vm.ordered vm.workerLogicalTaskCount
    vm.workerLogicalInputBytes

namespace WorkerTaskGroup

variable {g : WorkerTaskGroup} {next : Nat}

theorem Arranged.mono (h : g.Arranged next) {next' : Nat} (hle : next ≤ next') : g.Arranged next' :=
  { h with
    ordered := ⟨Nat.lt_of_lt_of_le h.ordered.positive hle, h.ordered.increasing, fun handle hm =>
      ⟨(h.ordered.issued handle hm).1, Nat.lt_of_lt_of_le (h.ordered.issued handle hm).2 hle⟩⟩ }

theorem length_handles (h : g.Arranged next) : g.handles.length = g.nextMaterializeIndex :=
  List.length_take_of_le (h.full ▸ h.within)

/-- The tasks of a workload, with the one that runs the next payload. -/
theorem handles_materialized (h : g.Arranged next) (hlt : g.nextMaterializeIndex < g.payloads.length) (handle : Nat) :
    (g.materialized handle).handles = g.handles ++ [handle] := by
  have hlen : g.nextMaterializeIndex < g.taskHandles.length := h.full ▸ hlt
  simp only [handles, materialized]
  rw [List.take_add_one, List.getElem?_set_self hlen, List.take_set_of_le (Nat.le_refl _)]
  rfl

theorem Arranged.materialize (h : g.Arranged next) (hlt : g.nextMaterializeIndex < g.payloads.length) :
    (g.materialized next).Arranged (next + 1) where
  nonempty := h.nonempty
  full := by simpa [materialized] using h.full
  within := hlt
  ordered := by
    rw [handles_materialized h hlt]
    refine ⟨Nat.succ_pos _, List.pairwise_append.2 ⟨h.ordered.increasing, List.pairwise_singleton _ _, fun a ha b hb => ?_⟩,
      fun a ha => ?_⟩
    · cases List.mem_singleton.1 hb
      exact (h.ordered.issued a ha).2
    · rcases List.mem_append.1 ha with ha | ha
      · exact ⟨(h.ordered.issued a ha).1, Nat.lt_succ_of_lt (h.ordered.issued a ha).2⟩
      · cases List.mem_singleton.1 ha
        exact ⟨h.ordered.positive, Nat.lt_succ_self _⟩
  rest handle hm := by
    simp only [materialized] at hm
    rw [List.drop_set_of_lt (Nat.lt_succ_self _)] at hm
    refine h.rest handle ?_
    rw [List.drop_eq_getElem_cons (h.full ▸ hlt)]
    exact List.mem_cons_of_mem _ hm

end WorkerTaskGroup

namespace Workloads

variable {groups : List WorkerTaskGroup} {nextGroup next taskCount inputBytes : Nat} {submissions : List (Nat × Nat × List Byte)}

/-- Submissions are released, and handles are issued. -/
theorem fewer (h : Workloads groups nextGroup next submissions taskCount inputBytes) {submissions' : List (Nat × Nat × List Byte)}
    {next' : Nat} (hs : submissions' ⊆ submissions) (hn : next ≤ next') :
    Workloads groups nextGroup next' submissions' taskCount inputBytes :=
  { h with
    positive := Nat.lt_of_lt_of_le h.positive hn
    arranged := fun g hg => (h.arranged g hg).mono hn
    submitted := fun s hm => Nat.lt_of_lt_of_le (h.submitted s (hs hm)) hn
    carried := fun g hg i handle hh s hm => h.carried g hg i handle hh s (hs hm) }

/-- A submission of no workload, under the next handle. -/
theorem submit (h : Workloads groups nextGroup next submissions taskCount inputBytes) (index : Nat) (payload : List Byte) :
    Workloads groups nextGroup (next + 1) (submissions ++ [(next, index, payload)]) taskCount inputBytes :=
  { h with
    positive := Nat.succ_pos _
    arranged := fun g hg => (h.arranged g hg).mono (Nat.le_succ _)
    submitted := fun s hm => by
      rcases List.mem_append.1 hm with hm | hm
      · exact Nat.lt_succ_of_lt (h.submitted s hm)
      · cases List.mem_singleton.1 hm
        exact Nat.lt_succ_self _
    carried := fun g hg i handle hh s hm he => by
      rcases List.mem_append.1 hm with hm | hm
      · exact h.carried g hg i handle hh s hm he
      · cases List.mem_singleton.1 hm
        have hlt := ((h.arranged g hg).ordered.issued handle (List.mem_of_getElem? hh)).2
        exact absurd he (Nat.ne_of_gt hlt) }

/-- A workload is accepted. -/
theorem accept (h : Workloads groups nextGroup next submissions taskCount inputBytes) {payloads : List (List Byte)}
    (hne : payloads ≠ []) (index : Nat) :
    Workloads (groups ++ [⟨nextGroup, index, 0, payloads, payloads.map fun _ => 0⟩]) (nextGroup + 1) next submissions
      (taskCount + payloads.length) (inputBytes + batchBytes payloads) where
  issued := by
    rw [List.map_append]
    refine ⟨Nat.succ_pos _, List.pairwise_append.2 ⟨h.issued.increasing, List.pairwise_singleton _ _, fun a ha b hb => ?_⟩,
      fun a ha => ?_⟩
    · cases List.mem_singleton.1 hb
      exact (h.issued.issued a ha).2
    · rcases List.mem_append.1 ha with ha | ha
      · exact ⟨(h.issued.issued a ha).1, Nat.lt_succ_of_lt (h.issued.issued a ha).2⟩
      · cases List.mem_singleton.1 ha
        exact ⟨h.issued.positive, Nat.lt_succ_self _⟩
  positive := h.positive
  arranged g hg := by
    rcases List.mem_append.1 hg with hg | hg
    · exact h.arranged g hg
    · cases List.mem_singleton.1 hg
      exact ⟨hne, List.length_map _, Nat.zero_le _, ⟨h.positive, .nil, fun _ hm => by cases hm⟩, fun handle hm => by
        obtain ⟨_, -, rfl⟩ := List.mem_map.1 hm
        rfl⟩
  apart := List.pairwise_append.2 ⟨h.apart, List.pairwise_singleton _ _, fun g _ g' hg' handle _ => by
    cases List.mem_singleton.1 hg'
    exact fun hm => by cases hm⟩
  submitted := h.submitted
  carried g hg i handle hh := by
    rcases List.mem_append.1 hg with hg | hg
    · exact h.carried g hg i handle hh
    · cases List.mem_singleton.1 hg
      simp [WorkerTaskGroup.handles] at hh
  counted := by simp [h.counted]
  weighed := by simp [h.weighed]

/-- The next payload of a workload is submitted under the next handle. -/
theorem materialize (h : Workloads groups nextGroup next submissions taskCount inputBytes) {slot : Nat} {g : WorkerTaskGroup}
    {payload : List Byte} (hg : groups[slot]? = some g) (hp : g.payloads[g.nextMaterializeIndex]? = some payload) :
    Workloads (groups.set slot (g.materialized next)) nextGroup (next + 1)
      (submissions ++ [(next, g.workerCatalogIndex, payload)]) taskCount inputBytes := by
  have hlt : g.nextMaterializeIndex < g.payloads.length := (List.getElem?_eq_some_iff.1 hp).1
  have hgm := List.mem_of_getElem? hg
  have hhandles := WorkerTaskGroup.handles_materialized (h.arranged g hgm) hlt next
  have hnew := h.submit g.workerCatalogIndex payload
  obtain ⟨xs, ys, rfl, -, hset⟩ := Slots.split hg
  rw [hset]
  have hbefore : ∀ g' ∈ xs ++ ys, g'.Arranged next ∧ g' ∈ xs ++ g :: ys := by
    intro g' hm
    have hin : g' ∈ xs ++ g :: ys := by
      rcases List.mem_append.1 hm with hm | hm
      · exact List.mem_append_left _ hm
      · exact List.mem_append_right _ (List.mem_cons_of_mem _ hm)
    exact ⟨h.arranged g' hin, hin⟩
  -- No other workload has the new handle.
  have hfresh : ∀ g' ∈ xs ++ ys, next ∉ g'.handles := fun g' hm hin =>
    absurd rfl (Nat.ne_of_lt ((hbefore g' hm).1.ordered.issued next hin).2)
  have hcases : ∀ g' ∈ xs ++ g.materialized next :: ys, g' = g.materialized next ∨ g' ∈ xs ++ ys := by
    intro g' hm
    rcases List.mem_append.1 hm with hm | hm
    · exact .inr (List.mem_append_left _ hm)
    · rcases List.mem_cons.1 hm with rfl | hm
      · exact .inl rfl
      · exact .inr (List.mem_append_right _ hm)
  refine ⟨?_, hnew.positive, fun g' hm => ?_, ?_, hnew.submitted, fun g' hm i handle hh s hs he => ?_, ?_, ?_⟩
  · have hissued := h.issued
    simp only [List.map_append, List.map_cons] at hissued ⊢
    exact hissued
  · rcases hcases g' hm with rfl | hm
    · exact (h.arranged g hgm).materialize hlt
    · exact (hbefore g' hm).1.mono (Nat.le_succ _)
  · obtain ⟨hx, hy, hxy⟩ := List.pairwise_append.1 h.apart
    obtain ⟨hgy, hys⟩ := List.pairwise_cons.1 hy
    refine List.pairwise_append.2 ⟨hx, List.pairwise_cons.2 ⟨fun g' hm handle hh => ?_, hys⟩, fun g₁ h₁ g₂ h₂ handle hh => ?_⟩
    · rw [hhandles] at hh
      rcases List.mem_append.1 hh with hh | hh
      · exact hgy g' hm handle hh
      · cases List.mem_singleton.1 hh
        exact hfresh g' (List.mem_append_right _ hm)
    · rcases List.mem_cons.1 h₂ with rfl | h₂
      · rw [hhandles]
        intro hin
        rcases List.mem_append.1 hin with hin | hin
        · exact hxy g₁ h₁ g (List.mem_cons_self ..) handle hh hin
        · cases List.mem_singleton.1 hin
          exact hfresh g₁ (List.mem_append_left _ h₁) hh
      · exact hxy g₁ h₁ g₂ (List.mem_cons_of_mem _ h₂) handle hh
  · rcases hcases g' hm with rfl | hm
    · rw [hhandles] at hh
      by_cases hi : i < g.handles.length
      · rw [List.getElem?_append_left hi] at hh
        exact hnew.carried g hgm i handle hh s hs he
      · rw [List.getElem?_append_right (Nat.le_of_not_lt hi)] at hh
        obtain ⟨hplace, hhandle⟩ := List.getElem?_eq_some_iff.1 hh
        rw [List.getElem_singleton] at hhandle
        have hlast : i = g.nextMaterializeIndex := by
          have hlength := WorkerTaskGroup.length_handles (h.arranged g hgm)
          rw [List.length_singleton] at hplace
          omega
        -- The new submission is the only one of the new handle.
        rcases List.mem_append.1 hs with hs | hs
        · exact absurd (he.trans hhandle.symm) (Nat.ne_of_lt (h.submitted s hs))
        · cases List.mem_singleton.1 hs
          exact ⟨rfl, hlast ▸ hp⟩
    · exact hnew.carried g' (hbefore g' hm).2 i handle hh s hs he
  · have hcounted := h.counted
    simp only [List.map_append, List.map_cons] at hcounted ⊢
    exact hcounted
  · have hweighed := h.weighed
    simp only [List.map_append, List.map_cons] at hweighed ⊢
    exact hweighed

end Workloads

/-! ## Changes of a machine -/

namespace Vm.WorkloadsKept

variable {env : Env} {nested : Vm → Option Vm} {vm vm' : Vm}

theorem of_untouched (h : vm.WorkloadsKept) (hu : vm.Untouched vm') : vm'.WorkloadsKept := by
  have hgroups := congrArg Vm.workerTaskGroups hu
  have hnextGroup := congrArg Vm.nextWorkerTaskGroupHandle hu
  have hnext := congrArg Vm.nextTaskHandle hu
  have hruntime := congrArg Vm.workerRuntime hu
  have hcount := congrArg Vm.workerLogicalTaskCount hu
  have hbytes := congrArg Vm.workerLogicalInputBytes hu
  have hkept : Workloads vm'.aside.workerTaskGroups vm'.aside.nextWorkerTaskGroupHandle vm'.aside.nextTaskHandle vm'.aside.ordered
      vm'.aside.workerLogicalTaskCount vm'.aside.workerLogicalInputBytes := by
    rw [hu]
    exact h
  exact hkept

/-- Submissions are released or canceled. -/
theorem release (h : vm.WorkloadsKept) (handle : Nat) : (releaseSubmission handle vm).WorkloadsKept := by
  refine Workloads.fewer h (fun s hs => ?_) (Nat.le_refl _)
  simp only [Vm.ordered, releaseSubmission, Option.map_map] at hs ⊢
  cases hrt : vm.workerRuntime with
  | none => simp [hrt] at hs
  | some rt =>
      simp only [hrt, Option.map_some, Option.getD_some, Function.comp_apply, WorkerRuntime.release] at hs ⊢
      exact (List.map_subset _ List.eraseP_subset) hs

theorem enter (h : vm.WorkloadsKept) (t : CompletedTask Vm) : (enterTask t vm).WorkloadsKept :=
  Workloads.fewer h (fun _ hs => hs) (Nat.le_succ _)

theorem removeHandle (h : vm.WorkloadsKept) (handle : Nat) : (removeCompletedTaskSlot handle vm).WorkloadsKept := by
  unfold removeCompletedTaskSlot
  split
  · exact h
  · exact h

theorem noteSubmission (env : Env) (h : vm.WorkloadsKept) (rt : WorkerRuntime) (index id : Nat) (payload : List Byte) :
    (noteSubmission env rt index id payload vm).WorkloadsKept := by
  unfold Aivm.noteSubmission
  split
  · exact h
  · exact h

/-- The submissions after one that has been accepted. -/
theorem ordered_submitted {rt rt' : WorkerRuntime} {index id : Nat} {payload : List Byte} {t : CompletedTask Vm}
    (hrt : vm.workerRuntime = some rt) (hs : rt.submit env (enterTask t vm) index id (some payload) = (rt', none)) :
    (setWorkerRuntime rt' (enterTask t vm)).ordered = vm.ordered ++ [(id, index, payload)] := by
  obtain ⟨data, hdata, htasks⟩ := Vm.TasksMatched.submit_accepted hs
  cases hdata
  simp [Vm.ordered, setWorkerRuntime, hrt, htasks, WorkerRuntimeTask.order]

theorem submitted (h : vm.WorkloadsKept) {rt rt' : WorkerRuntime} {index : Nat} {payload : Option (List Byte)}
    {t : CompletedTask Vm}
    (hrt : vm.workerRuntime = some rt) (hs : rt.submit env (enterTask t vm) index vm.nextTaskHandle payload = (rt', none)) :
    (setWorkerRuntime rt' (enterTask t vm)).WorkloadsKept := by
  obtain ⟨data, rfl, -⟩ := Vm.TasksMatched.submit_accepted hs
  unfold Vm.WorkloadsKept
  rw [ordered_submitted hrt hs]
  exact Workloads.submit h index data

theorem keepTombstone {handle : Nat} {u} (hv : vm.WorkloadsKept) (h : keepTombstone handle vm = .ok u vm') :
    vm'.WorkloadsKept := by
  obtain rfl | rfl | ⟨-, -, rfl⟩ := keepTombstone_ok h
  · exact hv
  · exact hv
  · exact hv

theorem admits : Admits env nested (Keeping Vm.WorkloadsKept) where
  chains := Keeping.chains _
  quiet hq h := h.of_untouched (.of_quiet hq)
  fault _ _ h := h
  pair _ _ _ h := h
  stackLimit _ _ h := h
  push _ _ _ h := h
  pop _ h := h
  validate := validateCallLocalState_ends (Keeping.chains _) fun _ _ h => h
  localsLimit _ _ h := h
  store index v vm hb hl h := h.of_untouched (Vm.Untouched.ordinary.store index v vm hb hl)
  builder _ _ _ h := h
  map _ _ _ h := h
  workerFault _ _ h := h
  invocationFault _ _ _ h := h
  finished {slot t state} result vm _ _ _ _ h := by
    have hmodified : (modifyTask slot (fun t => { t with result := result, state := state }) vm).WorkloadsKept := h
    exact hmodified.release t.handle
  returned _ _ _ _ _ h := h
  abandoned handle _ _ h := h.release handle
  frameLimit _ _ h := h
  pushFrame _ _ _ _ _ h := h
  popFrame _ _ h := h
  leave _ _ _ h := h
  reuse _ _ _ _ h := h
  validateReturn := validateVmReturnRestore_ends (Keeping.chains _) fun _ _ h => h
  openPar _ _ _ h := h
  addPar _ _ _ _ h := h
  closePar _ _ h := h
  reclaimed _ _ h := h
  entered _ _ _ h := h.enter _
  started {target argCount w worker} vm _ _ _ _ _ h := by
    have hentered := h.enter ⟨.pending, vm.nextTaskHandle, .void, some worker, 0, false⟩
    exact hentered
  created {rt} vm hnone hcreate h := by
    unfold WorkerRuntime.create at hcreate
    split at hcreate
    · cases hcreate
    · cases hcreate
      have hordered : vm.ordered = [] := by simp [Vm.ordered, hnone]
      have hkept := h
      unfold Vm.WorkloadsKept at hkept ⊢
      rw [hordered] at hkept
      exact hkept
  submitted vm _ hrt hs h := (h.submitted hrt hs).noteSubmission _ _ _ _ _
  refused {rt rt' index payload status} vm _ hrt hs h := by
    have hrefused : (setWorkerRuntime rt' (enterTask (pendingWorkerTask index vm.nextTaskHandle) vm)).WorkloadsKept := by
      refine Workloads.fewer h (fun s hm => ?_) (Nat.le_succ _)
      simpa [Vm.ordered, setWorkerRuntime, hrt, Vm.TasksMatched.submit_refused hs] using hm
    exact hrefused.removeHandle _
  unheard _ vm _ _ h := (h.enter _).removeHandle _
  workload {index payloads} vm hne _ _ _ _ h := Workloads.accept h hne index
  materialized {rt rt' slot g payload} vm _ hrt hg hp _ hs h := by
    have hmaterialized := Workloads.materialize h hg hp
    rw [← ordered_submitted hrt hs] at hmaterialized
    have hkept : ({ setWorkerRuntime rt' (enterTask (pendingWorkerTask g.workerCatalogIndex vm.nextTaskHandle) vm) with
        workerTaskGroups := vm.workerTaskGroups.set slot (g.materialized vm.nextTaskHandle) } : Vm).WorkloadsKept := hmaterialized
    have hnoted := hkept.noteSubmission env rt' g.workerCatalogIndex vm.nextTaskHandle payload
    unfold Aivm.noteSubmission at hnoted ⊢
    split
    · exact hkept
    · exact hkept
  canceled {rt} id' vm hrt h := by
    refine Workloads.fewer h (fun s hm => ?_) (Nat.le_refl _)
    have hsame : (rt.cancel id').tasks.map WorkerRuntimeTask.order = rt.tasks.map WorkerRuntimeTask.order := by
      simp only [WorkerRuntime.cancel, List.map_map]
      refine List.map_congr_left fun t _ => ?_
      simp only [Function.comp_apply]
      split <;> rfl
    simpa [Vm.ordered, setWorkerRuntime, hrt, hsame] using hm
  consumed _ _ hq hkeep h := ((hq h).keepTombstone hkeep).removeHandle _
  handled _ _ _ _ h := h

theorem of_reset (vm : Vm) : (resetFields vm).WorkloadsKept where
  issued := ⟨Nat.one_pos, .nil, fun _ hm => by cases hm⟩
  positive := Nat.one_pos
  arranged _ hm := by cases hm
  apart := .nil
  submitted _ hm := by cases hm
  carried _ hm := by cases hm
  counted := rfl
  weighed := rfl

theorem survives : Survives Vm.WorkloadsKept where
  fresh _ _ _ _ _ := of_reset _
  reset _ := of_reset _
  profiled _ h := h
  configured _ _ _ _ h := h
  booked hb h := by
    rw [hb.same]
    exact h

end Vm.WorkloadsKept

/-- The workloads of every machine in use are in order. -/
theorem Arises.workloadsKept {env : Env} {vm : Vm} (h : Arises env vm) : vm.WorkloadsKept :=
  Admits.arises (fun _ => Vm.WorkloadsKept.admits) Vm.WorkloadsKept.survives h

/-- A worker that returns its payload. -/
def echoImage : Image := ⟨0, [.instructions [⟨.storeLocal, 0⟩, ⟨.loadLocal, 0⟩, ⟨.ret, 0⟩]]⟩

/-- Submits two payloads and awaits the second one. -/
def workloadProgram : Program where
  instructions := [⟨.workerRef, 0⟩, ⟨.const, 0⟩, ⟨.workerRunAll, 1⟩, ⟨.storeLocal, 0⟩, ⟨.loadLocal, 0⟩, ⟨.pushInt, 1⟩,
    ⟨.workerTaskAt, 0⟩, ⟨.await, 0⟩]
  constants := [.bytes (.ext [1, 0, 0, 0, 7, 2, 0, 0, 0, 8, 9]) 11]
  workerCatalog := [⟨0, 0, 1, 2, [], echoImage.encode⟩]

/-- The machine of this program after some steps. -/
def workload (steps : Nat) : Option Vm :=
  (initVm .threaded workloadProgram [] [] .production 0).bind (Trails.iterate (step .threaded 9) steps)

theorem workload_arises {steps : Nat} {vm : Vm} (h : workload steps = some vm) : Arises .threaded vm := by
  obtain ⟨vm₀, hinit, hsteps⟩ := Option.bind_eq_some_iff.1 h
  exact Trails.iterate_keeps (fun hstep ha => .stepped ha hstep) hsteps (.made hinit)

/-- Both payloads have been submitted. -/
theorem workload_workloadsKept : ∃ vm, workload 3 = some vm ∧ vm.ordered = [(1, 0, [7]), (2, 0, [8, 9])] ∧
    vm.workerTaskGroups.map (·.payloads) = [[[7], [8, 9]]] ∧ vm.WorkloadsKept := by
  have hrun : (workload 3).map (fun vm => (vm.ordered, vm.workerTaskGroups.map (·.payloads))) =
      some ([(1, 0, [7]), (2, 0, [8, 9])], [[[7], [8, 9]]]) := by decide +kernel
  obtain ⟨vm, hvm, h⟩ := Option.map_eq_some_iff.1 hrun
  simp only [Prod.mk.injEq] at h
  exact ⟨vm, hvm, h.1, h.2, Arises.workloadsKept (workload_arises hvm)⟩

end Aivm
