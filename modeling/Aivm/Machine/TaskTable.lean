import Aivm.Machine.Lemmas.Runs

/-!
# The task table over whole runs

The table of a machine holds its tasks in the order of their handles. A pending subroutine has its worker, a pending
worker task has a submission in the runtime, and nothing else has either: unless the machine has stopped with an error,
the submissions of the runtime are the pending worker tasks of the table, in order.
-/

namespace Aivm

open VmM

/-! ## Lists with one entry changed -/

theorem eraseIdx_split {α : Type} {xs : List α} {i : Nat} {x : α} (h : xs[i]? = some x) :
    xs = xs.take i ++ x :: xs.drop (i + 1) ∧ xs.eraseIdx i = xs.take i ++ xs.drop (i + 1) := by
  obtain ⟨hlt, rfl⟩ := List.getElem?_eq_some_iff.1 h
  refine ⟨?_, List.eraseIdx_eq_take_drop_succ ..⟩
  rw [List.getElem_cons_drop, List.take_append_drop]

theorem modify_split {α : Type} {f : α → α} {xs : List α} {i : Nat} {x : α} (h : xs[i]? = some x) :
    xs.modify i f = xs.take i ++ f x :: xs.drop (i + 1) := by
  obtain ⟨hlt, rfl⟩ := List.getElem?_eq_some_iff.1 h
  rw [List.modify_eq_take_cons_drop hlt]

/-! ## Waiting tasks -/

/-- A task whose result a worker of the catalog will bring. -/
def CompletedTask.waits {W : Type} (t : CompletedTask W) : Bool := t.state = .pending ∧ t.isWorkerTask

/-- The handles of the waiting tasks. -/
def waitingHandles (tasks : List (CompletedTask Vm)) : List Nat := (tasks.filter (·.waits)).map (·.handle)

theorem waitingHandles_append (xs ys : List (CompletedTask Vm)) :
    waitingHandles (xs ++ ys) = waitingHandles xs ++ waitingHandles ys := by
  simp [waitingHandles]

theorem waitingHandles_cons_of_not {t : CompletedTask Vm} (h : t.waits = false) (ts : List (CompletedTask Vm)) :
    waitingHandles (t :: ts) = waitingHandles ts := by
  simp [waitingHandles, h]

theorem waitingHandles_cons {t : CompletedTask Vm} (h : t.waits = true) (ts : List (CompletedTask Vm)) :
    waitingHandles (t :: ts) = t.handle :: waitingHandles ts := by
  simp [waitingHandles, h]

theorem waitingHandles_shape {ts ts' : List (CompletedTask Vm)}
    (h : ts'.map CompletedTask.shape = ts.map CompletedTask.shape) : waitingHandles ts' = waitingHandles ts := by
  have hs : ∀ ts : List (CompletedTask Vm), waitingHandles ts = waitingHandles (ts.map CompletedTask.shape) := by
    intro ts
    induction ts with
    | nil => rfl
    | cons t ts ih =>
        cases hw : t.waits with
        | true =>
            have hw' : t.shape.waits = true := hw
            rw [List.map_cons, waitingHandles_cons hw, waitingHandles_cons hw', ih]
            rfl
        | false =>
            have hw' : t.shape.waits = false := hw
            rw [List.map_cons, waitingHandles_cons_of_not hw, waitingHandles_cons_of_not hw', ih]
  rw [hs ts', h, ← hs ts]

/-- A task that does not wait leaves the table. -/
theorem waitingHandles_eraseIdx {ts : List (CompletedTask Vm)} {i : Nat} (h : ∀ t, ts[i]? = some t → t.waits = false) :
    waitingHandles (ts.eraseIdx i) = waitingHandles ts := by
  cases ht : ts[i]? with
  | none =>
      rw [List.eraseIdx_of_length_le (List.getElem?_eq_none_iff.1 ht)]
  | some t =>
      obtain ⟨hsplit, herase⟩ := eraseIdx_split ht
      conv => rhs; rw [hsplit]
      rw [herase, waitingHandles_append, waitingHandles_append, waitingHandles_cons_of_not (h t ht)]

/-- A task that does not wait, before or after it changes. -/
theorem waitingHandles_modify {ts : List (CompletedTask Vm)} {i : Nat} {f : CompletedTask Vm → CompletedTask Vm}
    {t : CompletedTask Vm} (ht : ts[i]? = some t) (h : t.waits = false) (hf : (f t).waits = false) :
    waitingHandles (ts.modify i f) = waitingHandles ts := by
  obtain ⟨hsplit, -⟩ := eraseIdx_split ht
  conv => rhs; rw [hsplit]
  rw [modify_split ht, waitingHandles_append, waitingHandles_append, waitingHandles_cons_of_not h, waitingHandles_cons_of_not hf]

/-- A task that stops waiting; no other one has its handle. -/
theorem waitingHandles_settle {ts : List (CompletedTask Vm)} {i : Nat} {f : CompletedTask Vm → CompletedTask Vm}
    {t : CompletedTask Vm} (hnodup : (ts.map (·.handle)).Nodup) (ht : ts[i]? = some t) (h : t.waits = true)
    (hf : (f t).waits = false) : waitingHandles (ts.modify i f) = (waitingHandles ts).eraseP (· = t.handle) := by
  obtain ⟨hsplit, -⟩ := eraseIdx_split ht
  have hnot : t.handle ∉ waitingHandles (ts.take i) := by
    intro hm
    rw [hsplit, List.map_append, List.map_cons] at hnodup
    obtain ⟨u, hu, hh⟩ := List.mem_map.1 hm
    refine (List.nodup_append.1 hnodup).2.2 t.handle ?_ t.handle (List.mem_cons_self ..) rfl
    exact List.mem_map.2 ⟨u, List.mem_of_mem_filter hu, hh⟩
  have hne : ∀ b ∈ waitingHandles (ts.take i), ¬ decide (b = t.handle) = true := by
    intro b hb he
    exact hnot (of_decide_eq_true he ▸ hb)
  conv => rhs; rw [hsplit]
  rw [modify_split ht, waitingHandles_append, waitingHandles_append, waitingHandles_cons_of_not hf, waitingHandles_cons h,
    List.eraseP_append_right _ hne, List.eraseP_cons_of_pos (by simp)]

/-! ## The table -/

/-- The submissions that a machine's runtime holds. -/
def Vm.submissions (vm : Vm) : List Nat := (vm.workerRuntime.map fun rt => rt.tasks.map (·.submissionId)).getD []

/-- A pending task has no result yet, and a subroutine its worker until it ends. -/
def CompletedTask.Proper {W : Type} (t : CompletedTask W) : Prop :=
  (t.workerContext.isSome = true ↔ t.state = .pending ∧ t.isWorkerTask = false) ∧ (t.state = .pending → t.result = .void)

/-- The task table of a machine, its tombstones and its submissions. -/
structure Vm.TasksMatched (vm : Vm) : Prop where
  order : vm.TasksInOrder
  limit : vm.nextTaskHandle ≤ int64Max
  proper : ∀ t ∈ vm.completedTasks, t.Proper
  tombstones : vm.consumedTaskHandles.Nodup
  submissions : vm.status ≠ .error → vm.submissions = waitingHandles vm.completedTasks

theorem CompletedTask.Proper.of_shape {W : Type} {t t' : CompletedTask W} (h : t.Proper) (hs : t'.shape = t.shape) :
    t'.Proper := by
  simp only [CompletedTask.shape, CompletedTask.mk.injEq] at hs
  obtain ⟨hstate, -, hresult, hcontext, -, hworker⟩ := hs
  refine ⟨by rw [hstate, hworker, hcontext]; exact h.1, fun hp => ?_⟩
  rw [h.2 (hstate ▸ hp)] at hresult
  revert hresult
  cases t'.result <;> simp [Value.shape]

namespace Vm.TasksMatched

variable {env : Env} {nested : Vm → Option Vm} {vm vm' : Vm}

/-- What lies outside the table and the runtime does not matter, and a machine that has failed stays failed. -/
theorem of_same (h : vm.TasksMatched)
    (ht : vm'.completedTasks.map CompletedTask.shape = vm.completedTasks.map CompletedTask.shape)
    (hn : vm'.nextTaskHandle = vm.nextTaskHandle) (hc : vm'.consumedTaskHandles = vm.consumedTaskHandles)
    (hs : vm'.status ≠ .error → vm.status ≠ .error) (hr : vm'.submissions = vm.submissions) : vm'.TasksMatched where
  order := (Vm.Booking.of_same (Vm.Booking.of_inOrder h.order) ht hn).inOrder
  limit := hn ▸ h.limit
  proper t hm := by
    have hmap : t.shape ∈ vm.completedTasks.map CompletedTask.shape := ht ▸ List.mem_map_of_mem hm
    obtain ⟨t₀, ht₀, hshape⟩ := List.mem_map.1 hmap
    exact (h.proper t₀ ht₀).of_shape hshape.symm
  tombstones := hc ▸ h.tombstones
  submissions hne := by rw [hr, waitingHandles_shape ht, h.submissions (hs hne)]

theorem of_untouched (h : vm.TasksMatched) (hu : vm.Untouched vm') (hs : vm'.status ≠ .error → vm.status ≠ .error) :
    vm'.TasksMatched := by
  have hn := congrArg Vm.nextTaskHandle hu
  have hc := congrArg Vm.consumedTaskHandles hu
  exact h.of_same hu.tasks hn hc hs (by rw [Vm.submissions, hu.workerRuntime]; rfl)

/-- A task of the next handle is entered. -/
theorem enter (h : vm.TasksMatched) (hroom : vm.HasRoom) {t : CompletedTask Vm} (ht : t.handle = vm.nextTaskHandle)
    (hp : t.Proper) (hw : t.waits = false) : (enterTask t vm).TasksMatched where
  order := (Vm.Booking.enter (Vm.Booking.of_inOrder h.order) ht).inOrder
  limit := Nat.succ_le_of_lt (Nat.lt_of_le_of_ne h.limit hroom.1)
  proper u hu := by
    rcases List.mem_append.1 hu with hu | hu
    · exact h.proper u hu
    · exact List.mem_singleton.1 hu ▸ hp
  tombstones := h.tombstones
  submissions hne := by
    have hsame : waitingHandles (vm.completedTasks ++ [t]) = waitingHandles vm.completedTasks := by
      rw [waitingHandles_append, waitingHandles_cons_of_not hw]
      exact List.append_nil _
    exact (h.submissions hne).trans hsame.symm

/-- A task that does not wait leaves the table. -/
theorem remove (h : vm.TasksMatched) {slot : Nat} (hw : ∀ t, vm.completedTasks[slot]? = some t → t.waits = false) :
    (removeTaskSlot slot vm).TasksMatched where
  order := (Vm.Booking.remove (Vm.Booking.of_inOrder h.order) slot).inOrder
  limit := h.limit
  proper t ht := h.proper t (List.mem_of_mem_eraseIdx ht)
  tombstones := h.tombstones
  submissions hne := by
    have hs := h.submissions hne
    rw [removeTaskSlot, countReclaimed, waitingHandles_eraseIdx hw]
    exact hs

theorem taskSlot_handle {handle slot : Nat} {t : CompletedTask Vm} (h : taskSlot vm handle = some slot)
    (ht : vm.completedTasks[slot]? = some t) : t.handle = handle := by
  obtain ⟨hlt, hfound, -⟩ := List.findIdx?_eq_some_iff_getElem.1 h
  rw [List.getElem?_eq_getElem hlt, Option.some.injEq] at ht
  subst ht
  simpa using hfound

theorem removeHandle (h : vm.TasksMatched) {handle : Nat} (hs : vm.Settled handle) :
    (removeCompletedTaskSlot handle vm).TasksMatched := by
  unfold removeCompletedTaskSlot
  split
  · rename_i slot hslot
    refine h.remove fun t ht => ?_
    have hne := hs.2.2 t (List.mem_of_getElem? ht) (taskSlot_handle hslot ht)
    simp [CompletedTask.waits, hne]
  · exact h

/-- A task that has just been entered is taken out again. -/
theorem removeEntered (h : vm.TasksInOrder) {vm₁ : Vm} {t : CompletedTask Vm} (ht : t.handle = vm.nextTaskHandle)
    (htasks : vm₁.completedTasks = vm.completedTasks ++ [t]) :
    (removeCompletedTaskSlot vm.nextTaskHandle vm₁).completedTasks = vm.completedTasks := by
  have hslot : taskSlot vm₁ vm.nextTaskHandle = some vm.completedTasks.length := by
    unfold taskSlot
    rw [htasks]
    refine List.findIdx?_eq_some_iff_getElem.2 ⟨by simp, by simp [ht], fun j hj => ?_⟩
    have hissued := (h.issued (vm.completedTasks[j]).handle (List.mem_map_of_mem (List.getElem_mem hj))).2
    simp only [List.getElem_append_left hj, decide_eq_true_eq]
    exact Nat.ne_of_lt hissued
  rw [removeCompletedTaskSlot, hslot]
  simp only [removeTaskSlot, countReclaimed, htasks]
  rw [List.eraseIdx_append_of_length_le (Nat.le_refl _), Nat.sub_self]
  exact List.append_nil _

theorem keepTombstone {handle : Nat} {u} (hv : vm.TasksMatched) (h : keepTombstone handle vm = .ok u vm') : vm'.TasksMatched := by
  obtain rfl | rfl | ⟨hnew, -, rfl⟩ := keepTombstone_ok h
  · exact hv
  · exact hv.of_same rfl rfl rfl id rfl
  · refine ⟨hv.order, hv.limit, hv.proper, ?_, hv.submissions⟩
    exact List.nodup_append.2 ⟨hv.tombstones, List.nodup_singleton _, fun a ha b hb he =>
      hnew (List.mem_singleton.1 hb ▸ he ▸ ha)⟩

/-- A tombstone leaves the tasks as they are. -/
theorem keepTombstone_settled {handle other : Nat} {u} (h : Aivm.keepTombstone handle vm = .ok u vm') (hs : vm.Settled other) :
    vm'.Settled other := by
  obtain rfl | rfl | ⟨-, -, rfl⟩ := keepTombstone_ok h
  · exact hs
  · exact hs
  · exact hs

/-! ### Submissions -/

theorem prepareProgram_tasks {rt rt' : WorkerRuntime} {index : Nat} {p : WorkerProgram}
    (h : rt.prepareProgram env vm index = .ok (rt', p)) : rt'.tasks = rt.tasks := by
  unfold WorkerRuntime.prepareProgram at h
  split at h
  · cases h
  · cases h
    rfl
  split at h
  · cases h
  split at h
  · cases h
  · cases h
    rfl

/-- An accepted submission is the last one of the runtime. -/
theorem submit_accepted {rt rt' : WorkerRuntime} {index id : Nat} {payload : Option (List Byte)}
    (h : rt.submit env vm index id payload = (rt', none)) :
    ∃ data, payload = some data ∧ rt'.tasks = rt.tasks ++ [⟨id, index, data, false⟩] := by
  unfold WorkerRuntime.submit at h
  split at h
  · cases h
  split at h
  · cases h
  split at h
  · cases h
  split at h
  · cases h
  split at h
  · cases h
  rename_i rt₁ p hprepare
  split at h
  · cases h
  split at h
  · cases h
  · cases h
    exact ⟨_, rfl, by rw [prepareProgram_tasks hprepare]⟩

theorem submit_refused {rt rt' : WorkerRuntime} {index id : Nat} {payload : Option (List Byte)} {status : WorkerRuntimeStatus}
    (h : rt.submit env vm index id payload = (rt', some status)) : rt'.tasks = rt.tasks := by
  unfold WorkerRuntime.submit at h
  split at h
  · cases h
    rfl
  split at h
  · cases h
    rfl
  split at h
  · cases h
    rfl
  split at h
  · cases h
    rfl
  split at h
  · cases h
    rfl
  rename_i rt₁ p hprepare
  split at h
  · cases h
    exact prepareProgram_tasks hprepare
  split at h
  · cases h
    exact prepareProgram_tasks hprepare
  · cases h

theorem noteSubmission (env : Env) (h : vm.TasksMatched) (rt : WorkerRuntime) (index id : Nat) (payload : List Byte) :
    (noteSubmission env rt index id payload vm).TasksMatched := by
  unfold Aivm.noteSubmission
  split
  · exact h.of_same rfl rfl rfl (fun hne => hne) rfl
  · exact h

theorem pending_proper (index handle : Nat) : (pendingWorkerTask index handle).Proper := by
  simp [CompletedTask.Proper, pendingWorkerTask]

theorem submitted (h : vm.TasksMatched) (hroom : vm.HasRoom) {rt rt' : WorkerRuntime} {index : Nat}
    {payload : Option (List Byte)} (hrt : vm.workerRuntime = some rt)
    (hs : rt.submit env (enterTask (pendingWorkerTask index vm.nextTaskHandle) vm) index
      vm.nextTaskHandle payload = (rt', none)) :
    (setWorkerRuntime rt' (enterTask (pendingWorkerTask index vm.nextTaskHandle) vm)).TasksMatched where
  order := (Vm.Booking.enter (Vm.Booking.of_inOrder h.order) rfl).inOrder
  limit := Nat.succ_le_of_lt (Nat.lt_of_le_of_ne h.limit hroom.1)
  proper u hu := by
    rcases List.mem_append.1 hu with hu | hu
    · exact h.proper u hu
    · exact List.mem_singleton.1 hu ▸ pending_proper _ _
  tombstones := h.tombstones
  submissions hne := by
    obtain ⟨data, -, htasks⟩ := submit_accepted hs
    have hold : vm.submissions = waitingHandles vm.completedTasks := h.submissions hne
    have hwaits : (pendingWorkerTask index vm.nextTaskHandle).waits = true := rfl
    simp only [Vm.submissions, setWorkerRuntime, Option.map_some, Option.getD_some, htasks, List.map_append, List.map_singleton]
    simp only [Vm.submissions, hrt, Option.map_some, Option.getD_some] at hold
    rw [hold]
    simp only [enterTask, waitingHandles_append, waitingHandles_cons hwaits]
    rfl

/-- A submission that has been refused leaves nothing behind. -/
theorem refused (h : vm.TasksMatched) (hroom : vm.HasRoom) {vm₁ : Vm} (ht : vm₁.completedTasks = vm.completedTasks)
    (hn : vm₁.nextTaskHandle = vm.nextTaskHandle + 1) (hc : vm₁.consumedTaskHandles = vm.consumedTaskHandles)
    (hs : vm₁.status = vm.status) (hr : vm₁.submissions = vm.submissions) : vm₁.TasksMatched where
  order := by
    refine ⟨by omega, ht ▸ h.order.increasing, fun handle hm => ?_⟩
    obtain ⟨hp, hlt⟩ := h.order.issued handle (ht ▸ hm)
    exact ⟨hp, by omega⟩
  limit := hn ▸ Nat.succ_le_of_lt (Nat.lt_of_le_of_ne h.limit hroom.1)
  proper := ht ▸ h.proper
  tombstones := hc ▸ h.tombstones
  submissions hne := by rw [hr, ht, h.submissions (hs ▸ hne)]

theorem removeHandle_same (handle : Nat) (vm : Vm) :
    (removeCompletedTaskSlot handle vm).nextTaskHandle = vm.nextTaskHandle ∧
      (removeCompletedTaskSlot handle vm).consumedTaskHandles = vm.consumedTaskHandles ∧
      (removeCompletedTaskSlot handle vm).status = vm.status ∧
      (removeCompletedTaskSlot handle vm).submissions = vm.submissions := by
  unfold removeCompletedTaskSlot
  split
  · exact ⟨rfl, rfl, rfl, rfl⟩
  · exact ⟨rfl, rfl, rfl, rfl⟩

/-- A worker task is settled together with its submission. -/
theorem finish (h : vm.TasksMatched) {slot : Nat} {t : CompletedTask Vm} {state : TaskState} {result : Value}
    (ht : vm.completedTasks[slot]? = some t) (hp : t.state = .pending) (hw : t.isWorkerTask = true) (hs : state ≠ .pending) :
    (releaseSubmission t.handle (modifyTask slot (fun t => { t with result := result, state := state }) vm)).TasksMatched where
  order := (Vm.Booking.settle (f := fun t => { t with result := result, state := state }) (Vm.Booking.of_inOrder h.order)
    slot fun t => ⟨rfl, hs⟩).inOrder
  limit := h.limit
  proper u hu := by
    obtain ⟨i, hi⟩ := List.getElem?_of_mem hu
    simp only [releaseSubmission, modifyTask, List.getElem?_modify] at hi
    obtain ⟨t₀, ht₀, rfl⟩ := Option.map_eq_some_iff.1 hi
    have hproper := h.proper t₀ (List.mem_of_getElem? ht₀)
    split
    · rename_i he
      subst he
      rw [ht] at ht₀
      cases ht₀
      refine ⟨?_, fun hpending => absurd hpending hs⟩
      have hnone := hproper.1
      simp only [hp, hw, true_and, reduceCtorEq, iff_false] at hnone
      simp [hnone, hs]
    · exact hproper
  tombstones := h.tombstones
  submissions hne := by
    have hold : vm.submissions = waitingHandles vm.completedTasks := h.submissions hne
    have hnodup : (vm.completedTasks.map (·.handle)).Nodup := h.order.increasing.imp Nat.ne_of_lt
    have hwaits : t.waits = true := by simp [CompletedTask.waits, hp, hw]
    have hsettle := waitingHandles_settle (f := fun t => { t with result := result, state := state }) hnodup ht hwaits
      (by simp [CompletedTask.waits, hs])
    have hgoal : waitingHandles (vm.completedTasks.modify slot fun t => { t with result := result, state := state }) =
        vm.submissions.eraseP (· = t.handle) := by rw [hsettle, hold]
    refine Eq.trans ?_ hgoal.symm
    simp only [Vm.submissions, releaseSubmission, modifyTask, Option.map_map]
    cases vm.workerRuntime with
    | none => rfl
    | some rt => simp [WorkerRuntime.release, List.eraseP_map, Function.comp_def]

/-- A subroutine has ended. -/
theorem returns (h : vm.TasksMatched) {slot : Nat} {t : CompletedTask Vm} {result : Value}
    (ht : vm.completedTasks[slot]? = some t) (hw : t.isWorkerTask = false) :
    (modifyTask slot (fun t => { t with result := result, state := .completed, workerContext := none }) vm).TasksMatched where
  order := (Vm.Booking.settle (f := fun t => { t with result := result, state := .completed, workerContext := none })
    (Vm.Booking.of_inOrder h.order) slot fun t => ⟨rfl, by simp⟩).inOrder
  limit := h.limit
  proper u hu := by
    obtain ⟨i, hi⟩ := List.getElem?_of_mem hu
    simp only [modifyTask, List.getElem?_modify] at hi
    obtain ⟨t₀, ht₀, rfl⟩ := Option.map_eq_some_iff.1 hi
    split
    · simp [CompletedTask.Proper]
    · exact h.proper t₀ (List.mem_of_getElem? ht₀)
  tombstones := h.tombstones
  submissions hne := by
    have hwaits : t.waits = false := by simp [CompletedTask.waits, hw]
    rw [modifyTask, waitingHandles_modify ht hwaits (by simp [CompletedTask.waits])]
    exact h.submissions hne

/-- The changes of an instruction keep the table and the submissions together. -/
theorem admits : Admits env nested (Keeping Vm.TasksMatched) where
  chains := Keeping.chains _
  quiet {vm vm'} hq h := by
    have hs := congrArg Vm.status hq.outside
    exact h.of_untouched (.of_quiet hq) fun hne he => hne (Eq.trans hs he)
  fault _ _ h := h.of_same rfl rfl rfl (fun hne => absurd rfl hne) rfl
  pair _ _ _ h := h.of_same rfl rfl rfl id rfl
  stackLimit _ _ h := h.of_same rfl rfl rfl id rfl
  push _ _ _ h := h.of_same rfl rfl rfl id rfl
  pop _ h := h.of_same rfl rfl rfl id rfl
  validate := validateCallLocalState_ends (Keeping.chains _) fun _ _ h => h.of_same rfl rfl rfl (fun hne => absurd rfl hne) rfl
  localsLimit _ _ h := h.of_same rfl rfl rfl id rfl
  store index v vm _ _ h := by
    unfold writeLocal
    split
    · exact h.of_same rfl rfl rfl id rfl
    · exact h.of_same rfl rfl rfl id rfl
  builder _ _ _ h := h.of_same rfl rfl rfl id rfl
  map _ _ _ h := h.of_same rfl rfl rfl id rfl
  workerFault _ _ h := h.of_same rfl rfl rfl (fun hne => absurd rfl hne) rfl
  invocationFault _ _ _ h := h.of_same rfl rfl rfl (fun hne => absurd rfl hne) rfl
  finished _ _ ht hp hw hs h := h.finish ht hp hw hs
  returned _ _ ht _ hw h := h.returns ht hw
  abandoned _ _ he h := ⟨h.order, h.limit, h.proper, h.tombstones, fun hne => absurd he hne⟩
  frameLimit _ _ h := h.of_same rfl rfl rfl id rfl
  pushFrame _ _ _ _ _ h := h.of_same rfl rfl rfl id rfl
  popFrame _ _ h := h.of_same rfl rfl rfl id rfl
  leave _ _ _ h := h.of_same rfl rfl rfl id rfl
  reuse _ _ _ _ h := h.of_same rfl rfl rfl id rfl
  validateReturn := validateVmReturnRestore_ends (Keeping.chains _) fun _ _ h =>
    h.of_same rfl rfl rfl (fun hne => absurd rfl hne) rfl
  openPar _ _ _ h := h.of_same rfl rfl rfl id rfl
  addPar _ _ _ _ h := h.of_same rfl rfl rfl id rfl
  closePar _ _ h := h.of_same rfl rfl rfl id rfl
  reclaimed {slot} vm hslot h := by
    have hskipped : (countSkipped slot vm).TasksMatched := h.of_same rfl rfl rfl id rfl
    refine hskipped.remove fun t ht => ?_
    obtain ⟨hlt, hfound, -⟩ := List.findIdx?_eq_some_iff_getElem.1 hslot
    have hget : vm.completedTasks[slot]? = some t := ht
    rw [List.getElem?_eq_getElem hlt, Option.some.injEq] at hget
    simp only [hget, TaskState.isTerminal, decide_eq_true_eq] at hfound
    simp [CompletedTask.waits, hfound.1]
  entered _ _ hroom h := h.enter hroom rfl (by simp [CompletedTask.Proper]) (by simp [CompletedTask.waits])
  started {target argCount w worker} vm hroom _ _ _ _ h := by
    have hstack : ({ vm with stack := vm.stack.take (vm.stack.length - argCount) } : Vm).TasksMatched :=
      h.of_same rfl rfl rfl id rfl
    have hentered := hstack.enter (t := ⟨.pending, vm.nextTaskHandle, .void, some worker, 0, false⟩) hroom rfl
      (by simp [CompletedTask.Proper]) (by simp [CompletedTask.waits])
    exact hentered.of_same rfl rfl rfl id rfl
  created {rt} vm hnone hcreate h := by
    refine h.of_same rfl rfl rfl id ?_
    unfold WorkerRuntime.create at hcreate
    split at hcreate
    · cases hcreate
    · cases hcreate
      simp [Vm.submissions, setWorkerRuntime, hnone]
  submitted _ hroom hrt hs h := (h.submitted hroom hrt hs).noteSubmission _ _ _ _ _
  refused {rt rt' index payload status} vm hroom hrt hs h := by
    obtain ⟨hn, hc, hstatus, hr⟩ := removeHandle_same vm.nextTaskHandle
      (setWorkerRuntime rt' (enterTask (pendingWorkerTask index vm.nextTaskHandle) vm))
    refine h.refused hroom (removeEntered h.order (t := pendingWorkerTask index vm.nextTaskHandle) rfl rfl)
      hn hc hstatus (hr.trans ?_)
    simp [Vm.submissions, setWorkerRuntime, hrt, submit_refused hs]
  unheard index vm hroom hrt h := by
    obtain ⟨hn, hc, hstatus, hr⟩ := removeHandle_same vm.nextTaskHandle
      (enterTask (pendingWorkerTask index vm.nextTaskHandle) vm)
    exact h.refused hroom (removeEntered h.order (t := pendingWorkerTask index vm.nextTaskHandle) rfl rfl) hn hc hstatus hr
  workload _ _ _ _ _ _ h := h.of_same rfl rfl rfl id rfl
  materialized {rt rt' slot g payload} vm hroom hrt _ _ _ hs h := by
    have hnoted := (h.submitted hroom hrt hs).noteSubmission env rt' g.workerCatalogIndex vm.nextTaskHandle payload
    exact hnoted.of_same rfl rfl rfl id rfl
  canceled {rt} id' vm hrt h := by
    refine h.of_same rfl rfl rfl id ?_
    have hids : (rt.cancel id').tasks.map (·.submissionId) = rt.tasks.map (·.submissionId) := by
      simp only [WorkerRuntime.cancel, List.map_map]
      refine List.map_congr_left fun t _ => ?_
      simp only [Function.comp_apply]
      split <;> rfl
    simp [Vm.submissions, setWorkerRuntime, hrt, hids]
  consumed {handle u vm₀ vm₁} vm hset hq hkeep h := by
    have hkept := (hq h).keepTombstone hkeep
    have hremoved := hkept.removeHandle (keepTombstone_settled hkeep (hset h.order))
    exact hremoved.of_same rfl rfl rfl id rfl
  handled _ _ _ _ h := h.of_same rfl rfl rfl id rfl

theorem of_reset (h : vm.consumedTaskHandles.Nodup) : (resetFields vm).TasksMatched where
  order := ⟨Nat.one_pos, .nil, fun _ hm => by cases hm⟩
  limit := by
    have hone : (1 : Nat) ≤ int64Max := by decide
    exact hone
  proper _ hm := by cases hm
  tombstones := h
  submissions _ := rfl

theorem survives : Survives Vm.TasksMatched where
  fresh _ _ _ _ _ := of_reset .nil
  reset h := of_reset h.tombstones
  profiled _ h := h.of_same rfl rfl rfl id rfl
  configured _ _ _ _ h := h.of_same rfl rfl rfl id rfl
  booked {vm vm'} hb h := by
    have hs := hb.same
    have hstatus := hb.failed
    generalize vm'.status = status at hs hstatus
    rw [hs]
    exact h.of_same rfl rfl rfl hstatus rfl

end Vm.TasksMatched

end Aivm
