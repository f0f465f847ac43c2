import Aivm.Machine.InstructionPointer

/-!
# Consumed tasks

The result of a task is consumed once. A task that an `AWAIT` or a `PAR_JOIN` has consumed is no longer in the table, its
handle is never issued again, and whoever awaits it again fails.
-/

namespace Aivm

open VmM

/-- A handle that has been issued and stands for no task any more. -/
def Vm.Gone (vm : Vm) (handle : Nat) : Prop :=
  0 < handle ∧ handle < vm.nextTaskHandle ∧ ∀ t ∈ vm.completedTasks, t.handle ≠ handle

/-- The handles of the tasks that have been consumed. -/
def Vm.consumed (vm : Vm) (handle : Nat) : Prop := .taskConsumed handle ∈ vm.events

/-- The table is in order, and no consumed task is in it. -/
def Vm.Retired (vm : Vm) : Prop := vm.Booking (fun _ => False) vm.consumed

namespace Vm.Retired

variable {env : Env} {nested : Vm → Option Vm} {vm vm' : Vm}

theorem gone (h : vm.Retired) {handle : Nat} (hc : vm.consumed handle) : vm.Gone handle := by
  obtain ⟨hp, hlt, hnot⟩ := TaskBook.gone h handle hc
  exact ⟨hp, hlt, fun t ht he => hnot (List.mem_map.2 ⟨t.entry, List.mem_map_of_mem ht, he⟩)⟩

/-- A change that keeps what the table says of the tasks consumed so far, and consumes none. -/
theorem change (h : vm.Retired) (hk : Keeping (Vm.Booking (fun _ => False) vm.consumed) vm vm')
    (he : ∀ handle, vm'.consumed handle → vm.consumed handle) : vm'.Retired :=
  (hk h).mono (fun _ hs => hs) he

theorem keep (h : vm.Retired) (hk : Keeping (Vm.Booking (fun _ => False) vm.consumed) vm vm') (he : vm'.events = vm.events) :
    vm'.Retired :=
  h.change hk fun handle hc => by
    unfold Vm.consumed at hc
    rwa [he] at hc

theorem removeHandle_events (handle : Nat) (vm : Vm) : (removeCompletedTaskSlot handle vm).events = vm.events := by
  unfold removeCompletedTaskSlot
  split <;> rfl

theorem noteSubmission_consumed {rt : WorkerRuntime} {index id : Nat} {payload : List Byte} {handle : Nat}
    (h : (noteSubmission env rt index id payload vm).consumed handle) : vm.consumed handle := by
  unfold noteSubmission at h
  split at h
  · simpa [Vm.consumed, noteEvent] using h
  · exact h

theorem keepTombstone_events {handle : Nat} {u} (h : keepTombstone handle vm = .ok u vm') : vm'.events = vm.events := by
  obtain rfl | rfl | ⟨-, -, rfl⟩ := keepTombstone_ok h <;> rfl

/-- The only task of a handle is taken out. -/
theorem removeHandle_gone (h : vm.TasksInOrder) (handle : Nat) :
    ∀ t ∈ (removeCompletedTaskSlot handle vm).completedTasks, t.handle ≠ handle := by
  have hnodup : (vm.completedTasks.map (·.handle)).Nodup := h.increasing.imp Nat.ne_of_lt
  unfold removeCompletedTaskSlot
  cases hslot : taskSlot vm handle with
  | none =>
      intro t ht he
      have hnot := List.findIdx?_eq_none_iff.1 hslot t ht
      simp [he] at hnot
  | some slot =>
      obtain ⟨hlt, hfound, -⟩ := List.findIdx?_eq_some_iff_getElem.1 hslot
      intro t ht he
      obtain ⟨i, hne, hi⟩ := List.mem_eraseIdx_iff_getElem?.1 ht
      refine hne ((List.getElem?_inj (by simpa using (List.getElem?_eq_some_iff.1 hi).1) hnodup).1 ?_)
      rw [List.getElem?_map, List.getElem?_map, hi, List.getElem?_eq_getElem hlt]
      simp only [Option.map_some, he, Option.some.injEq]
      exact (of_decide_eq_true hfound).symm

/-- A settled task is consumed. -/
theorem consume (h : vm.Retired) {handle : Nat} (hs : vm.Settled handle) :
    (noteEvent (.taskConsumed handle) (removeCompletedTaskSlot handle vm)).Retired := by
  have hb := Vm.Booking.removeHandle h handle
  have hn : (removeCompletedTaskSlot handle vm).nextTaskHandle = vm.nextTaskHandle := by
    unfold removeCompletedTaskSlot
    split <;> rfl
  refine ⟨hb.order, hb.settled, fun other hc => ?_⟩
  rcases List.mem_append.1 hc with hc | hc
  · rw [removeHandle_events] at hc
    exact hb.gone other hc
  · cases List.mem_singleton.1 hc
    refine ⟨hs.1, Nat.lt_of_lt_of_eq hs.2.1 hn.symm, fun hm => ?_⟩
    rw [List.map_map] at hm
    obtain ⟨t, ht, he⟩ := List.mem_map.1 hm
    exact removeHandle_gone (Vm.Booking.inOrder h) handle t ht he

theorem of_untouched (h : vm.Retired) (hu : vm.Untouched vm') : vm'.Retired := by
  have he := congrArg Vm.events hu
  exact h.keep (fun hb => hb.of_untouched hu) he

theorem books (env : Env) (nested : Vm → Option Vm) (vm : Vm) :
    Admits env nested (Keeping (Vm.Booking (fun _ => False) vm.consumed)) := Vm.Booking.admits

theorem admits : Admits env nested (Keeping Vm.Retired) where
  chains := Keeping.chains _
  quiet hq h := h.of_untouched (.of_quiet hq)
  fault _ _ h := h.keep (fun hb => hb) rfl
  pair _ _ _ h := h.keep (fun hb => hb) rfl
  stackLimit _ _ h := h.keep (fun hb => hb) rfl
  push _ _ _ h := h.keep (fun hb => hb) rfl
  pop _ h := h.keep (fun hb => hb) rfl
  validate := validateCallLocalState_ends (Keeping.chains _) fun _ _ h => h.keep (fun hb => hb) rfl
  localsLimit _ _ h := h.keep (fun hb => hb) rfl
  store index v vm hb hl h := h.of_untouched (Vm.Untouched.ordinary.store index v vm hb hl)
  builder _ _ _ h := h.keep (fun hb => hb) rfl
  map _ _ _ h := h.keep (fun hb => hb) rfl
  workerFault _ _ h := h.keep (fun hb => hb) rfl
  invocationFault _ _ _ h := h.keep (fun hb => hb) rfl
  finished result vm ht hp hw hs h := h.keep ((books env nested vm).finished result vm ht hp hw hs) rfl
  returned result vm ht hp hw h := h.keep ((books env nested vm).returned result vm ht hp hw) rfl
  abandoned _ _ _ h := h.keep (fun hb => hb) rfl
  frameLimit _ _ h := h.keep (fun hb => hb) rfl
  pushFrame _ _ _ _ _ h := h.keep (fun hb => hb) rfl
  popFrame _ _ h := h.keep (fun hb => hb) rfl
  leave _ _ _ h := h.keep (fun hb => hb) rfl
  reuse _ _ _ _ h := h.keep (fun hb => hb) rfl
  validateReturn := validateVmReturnRestore_ends (Keeping.chains _) fun _ _ h => h.keep (fun hb => hb) rfl
  openPar _ _ _ h := h.keep (fun hb => hb) rfl
  addPar _ _ _ _ h := h.keep (fun hb => hb) rfl
  closePar _ _ h := h.keep (fun hb => hb) rfl
  reclaimed vm hs h := h.keep ((books env nested vm).reclaimed vm hs) rfl
  entered r vm hroom h := h.keep ((books env nested vm).entered r vm hroom) rfl
  started vm hroom ht ha hw he h := h.change ((books env nested vm).started vm hroom ht ha hw he) fun handle hc => by
    simpa [Vm.consumed, enterSubroutineTask, noteEvent, enterTask] using hc
  created vm hn hc h := h.keep ((books env nested vm).created vm hn hc) rfl
  submitted vm hroom hrt hs h := h.change ((books env nested vm).submitted vm hroom hrt hs) fun handle hc => by
    have hold := noteSubmission_consumed hc
    exact hold
  refused vm hroom hrt hs h := h.keep ((books env nested vm).refused vm hroom hrt hs) (removeHandle_events ..)
  unheard index vm hroom hrt h := h.keep ((books env nested vm).unheard index vm hroom hrt) (removeHandle_events ..)
  workload _ _ _ _ _ _ h := h.change (fun hb => hb) fun handle hc => by
    simpa [Vm.consumed, enterWorkload, noteEvent] using hc
  materialized {rt rt' slot g payload} vm hroom hrt hg hp ht hs h := by
    refine h.change ((books env nested vm).materialized vm hroom hrt hg hp ht hs) fun handle hc => ?_
    have hnoted : (noteSubmission env rt' g.workerCatalogIndex vm.nextTaskHandle payload
      (setWorkerRuntime rt' (enterTask (pendingWorkerTask g.workerCatalogIndex vm.nextTaskHandle) vm))).consumed handle := hc
    have hold := noteSubmission_consumed hnoted
    exact hold
  canceled _ _ _ h := h.keep (fun hb => hb) rfl
  consumed {handle u vm₀ vm₁} vm hset hq hkeep h := by
    have hkept : vm₁.Retired := (hq h).keep (fun hb => hb.keepTombstone hkeep) (keepTombstone_events hkeep)
    refine hkept.consume ?_
    obtain rfl | rfl | ⟨-, -, rfl⟩ := keepTombstone_ok hkeep
    · exact hset (Vm.Booking.inOrder h)
    · exact hset (Vm.Booking.inOrder h)
    · exact hset (Vm.Booking.inOrder h)
  handled _ _ _ _ h := h.change (fun hb => hb) fun handle hc => by
    simpa [Vm.consumed, noteEvent] using hc

theorem of_reset (vm : Vm) : (resetFields vm).Retired :=
  ⟨⟨Nat.one_pos, .nil, fun _ hm => by cases hm⟩, fun _ hs => hs.elim, fun _ hc => by cases hc⟩

theorem survives : Survives Vm.Retired where
  fresh _ _ _ _ _ := of_reset _
  reset _ := of_reset _
  profiled _ h := h.keep (fun hb => hb) rfl
  configured _ _ _ _ h := h.keep (fun hb => hb) rfl
  booked hb h := by
    rw [hb.same]
    exact h.keep (fun hb => hb) rfl

end Vm.Retired

theorem Arises.retired {env : Env} {vm : Vm} (h : Arises env vm) : vm.Retired :=
  Admits.arises (fun _ => Vm.Retired.admits) Vm.Retired.survives h

/-! ## Awaiting a task -/

/-- The next instruction awaits this task. -/
def Vm.AwaitsTask (vm : Vm) (handle : Nat) : Prop :=
  vm.stopped = false ∧ vm.stack.getLast? = some (.task handle) ∧
    ∃ i, vm.program.instructions[vm.instructionPointer]? = some i ∧ i.opcode = .await

section Awaiting

variable {env : Env} {nested : Vm → Option Vm} {vm vm' v v' : Vm} {handle fuel fuel' : Nat}

/-- The result of a task that is gone is not found. -/
theorem findTerminalTaskResult_gone (h : vm.Gone handle) :
    ∃ vm₁, findTerminalTaskResult env nested handle vm = .fail vm₁ := by
  have hslot : taskSlot vm handle = none := List.findIdx?_eq_none_iff.2 fun t ht => by simpa using h.2.2 t ht
  have hfind : findTerminalTaskResult env nested handle vm = findTerminalTaskResult.notFound handle vm vm := by
    unfold findTerminalTaskResult
    simp only [bind_run, get_run, hslot]
  rw [hfind]
  unfold findTerminalTaskResult.notFound
  split
  · exact ⟨_, rfl⟩
  · exact ⟨_, rfl⟩

theorem stackPop_top {v : Value} (h : vm.stack.getLast? = some v) :
    stackPop vm = .ok v { vm with stack := vm.stack.dropLast } := by
  unfold stackPop
  rw [h]

theorem await_gone (ht : vm.stack.getLast? = some (.task handle)) (h : vm.Gone handle) :
    ∃ vm₁, await env nested vm = .fail vm₁ ∧ vm₁.status = .error := by
  have hpopped : ({ vm with stack := vm.stack.dropLast } : Vm).Gone handle := h
  have hfail : ∃ vm₁, findTerminalTaskResult env nested handle { vm with stack := vm.stack.dropLast } = .fail vm₁ :=
    findTerminalTaskResult_gone hpopped
  obtain ⟨vm₁, hfind⟩ := hfail
  unfold await
  simp only [bind_run, stackPop_top ht, VmM.orFault, VmM.onFail, hfind]
  refine ⟨_, rfl, ?_⟩
  split
  · assumption
  · rfl

/-- What an await consumes stays consumed. -/
theorem await_consumes (ht : vm.stack.getLast? = some (.task handle)) {u : Unit} (h : await env nested vm = .ok u vm') :
    vm'.consumed handle := by
  obtain ⟨value, vm₁, hpop, h⟩ := bind_ok.1 h
  rw [stackPop_top ht] at hpop
  cases hpop
  obtain ⟨result, vm₂, -, h⟩ := bind_ok.1 h
  obtain ⟨_, vm₃, -, h⟩ := bind_ok.1 h
  obtain ⟨_, vm₄, hrelease, h⟩ := bind_ok.1 h
  cases h
  obtain ⟨_, vm₅, -, hrelease⟩ := bind_ok.1 hrelease
  obtain ⟨_, _, hconsume, hrelease⟩ := bind_ok.1 hrelease
  cases hconsume
  have hproceeds : Proceeds env nested Vm.Dispatches := Vm.Dispatches.admits.toProceeds
  have hrest := (hproceeds.bind hproceeds.refillWorkerTaskGroups fun _ _ => hproceeds.collectSafePoint).ok hrelease
  exact hrest.noted (List.mem_append_right _ (List.mem_singleton_self _))

/-- A step that awaits a task consumes it, or the machine stops. -/
theorem step_awaits (ha : vm.AwaitsTask handle) (h : step env fuel vm = some vm') :
    vm'.stopped = true ∨ vm'.consumed handle := by
  obtain ⟨hgoes, htop, i, hi, hawait⟩ := ha
  obtain hs | ⟨u, vm₁, hok, rfl⟩ := step_executes hgoes hi h
  · exact .inl hs
  · unfold execute at hok
    rw [hawait] at hok
    have hbegun : (beginStep i vm).stack.getLast? = some (.task handle) := htop
    have hconsumed : vm₁.consumed handle := await_consumes hbegun hok
    refine .inr ?_
    unfold Vm.consumed settle
    split
    · exact hconsumed
    · exact hconsumed

/-- The await of a task that is gone fails. -/
theorem step_gone (ha : vm.AwaitsTask handle) (hg : vm.Gone handle) (h : step env fuel vm = some vm') :
    vm'.status = .error := by
  obtain ⟨hgoes, htop, i, hi, hawait⟩ := ha
  unfold step stepWith at h
  rw [if_neg (by simp [hgoes]), hi] at h
  have hbegun : (beginStep i vm).Gone handle := hg
  have hfails : ∃ vm₁, await env (finish env fuel) (beginStep i vm) = .fail vm₁ ∧ vm₁.status = .error := await_gone htop hbegun
  obtain ⟨vm₁, hfail, herror⟩ := hfails
  have hexecute : execute env (finish env fuel) i (beginStep i vm) = .fail vm₁ := by
    unfold execute
    rw [hawait]
    exact hfail
  simp only [hexecute, Option.some.injEq] at h
  subst h
  simp [settle, stopStep, herror]

theorem run_stopped {fuels : List Nat} (hs : vm.stopped = true) (h : Runs.Run (Steps env) vm fuels v) : v = vm := by
  refine h.keeps (P := fun v => v = vm) rfl fun a fuel b ha hstep => ?_
  subst ha
  exact step_stopped hs hstep

theorem run_arises {fuels : List Nat} (ha : Arises env vm) (h : Runs.Run (Steps env) vm fuels v) : Arises env v :=
  h.keeps ha fun _ _ _ ha hstep => .stepped ha hstep

theorem run_consumed {fuels : List Nat} (hc : vm.consumed handle) (h : Runs.Run (Steps env) vm fuels v) :
    v.consumed handle :=
  h.keeps hc fun _ _ _ hc hstep => (Vm.Dispatches.admits.stepWith .of_booked hstep).noted hc

/-- The result of a task that has been consumed is never found again, and of two awaits of one task in a run the second
fails. -/
theorem Arises.consumed_once (h : Arises env vm) :
    (∀ handle, vm.consumed handle → vm.Gone handle ∧
      ∀ nested result vm', findTerminalTaskResult env nested handle vm ≠ .ok result vm') ∧
    ∀ handle fuel vm₁ fuels v fuel' v', vm.AwaitsTask handle → step env fuel vm = some vm₁ →
      Runs.Run (Steps env) vm₁ fuels v → v.AwaitsTask handle → step env fuel' v = some v' → v'.status = .error := by
  refine ⟨fun handle hc => ?_, fun handle fuel vm₁ fuels v fuel' v' ha hstep hrun ha' hstep' => ?_⟩
  · have hg := h.retired.gone hc
    refine ⟨hg, fun nested result vm' hfound => ?_⟩
    obtain ⟨vm₁, hfail⟩ := findTerminalTaskResult_gone hg
    rw [hfail] at hfound
    cases hfound
  · obtain hs | hc := step_awaits ha hstep
    · have hsame := run_stopped hs hrun
      rw [hsame] at ha'
      exact absurd hs (by simp [ha'.1])
    · have hg := (run_arises (.stepped h hstep) hrun).retired.gone (run_consumed hc hrun)
      exact step_gone ha' hg hstep'

/-- The first await of the program, and the second. -/
theorem errand_consumed_once : ∃ vm v v', errand 3 = some vm ∧ errand 9 = some v ∧ errand 10 = some v' ∧
    vm.AwaitsTask 1 ∧ v.AwaitsTask 1 ∧ v'.status = .error := by
  have hawaits : ∀ n, (errand n).map (fun vm => (vm.stopped, vm.stack.getLast?,
      (vm.program.instructions[vm.instructionPointer]?).map (·.opcode))) = some (false, some (.task 1), some .await) →
      ∃ vm, errand n = some vm ∧ vm.AwaitsTask 1 := by
    intro n hn
    obtain ⟨vm, hvm, h⟩ := Option.map_eq_some_iff.1 hn
    simp only [Prod.mk.injEq] at h
    obtain ⟨i, hi, hop⟩ := Option.map_eq_some_iff.1 h.2.2
    exact ⟨vm, hvm, h.1, h.2.1, i, hi, hop⟩
  obtain ⟨vm, hvm, ha⟩ := hawaits 3 (by decide +kernel)
  obtain ⟨v, hv, ha'⟩ := hawaits 9 (by decide +kernel)
  obtain ⟨vm₁, hvm₁⟩ := Option.isSome_iff_exists.1 (by decide +kernel : (errand 4).isSome = true)
  obtain ⟨v', hv'⟩ := Option.isSome_iff_exists.1 (by decide +kernel : (errand 10).isSome = true)
  have hfirst : step .threaded 9 vm = some vm₁ := by simpa [Trails.iterate] using errand_add (n := 1) hvm hvm₁
  have hlast : step .threaded 9 v = some v' := by simpa [Trails.iterate] using errand_add (n := 1) hv hv'
  obtain ⟨fuels, hrun⟩ := iterate_runs (errand_add (n := 5) hvm₁ hv)
  exact ⟨vm, v, v', hvm, hv, hv', ha, ha',
    (Arises.consumed_once (errand_arises hvm)).2 1 9 vm₁ fuels v 9 v' ha hfirst hrun ha' hlast⟩

end Awaiting

end Aivm
