import Aivm.Machine.Confinement

/-!
# The instruction pointer

The instruction pointer of a machine never leaves its program. A machine that runs has an instruction to execute, and one
that has halted stands behind the last one. This includes the machines that run for it: a subroutine starts at a call
target and a worker of the catalog at its function.
-/

namespace Aivm

open VmM

/-- The program is the same, the instruction pointer has not moved, and no other status than an error has been set. -/
structure Vm.InPlace (vm vm' : Vm) : Prop where
  program : vm'.program = vm.program
  pointer : vm'.instructionPointer = vm.instructionPointer
  status : vm'.status = vm.status ∨ vm'.status = .error

namespace Vm.InPlace

variable {env : Env} {nested : Vm → Option Vm} {vm vm' vm'' : Vm}

theorem trans (h : vm.InPlace vm') (h' : vm'.InPlace vm'') : vm.InPlace vm'' := by
  refine ⟨h'.program.trans h.program, h'.pointer.trans h.pointer, ?_⟩
  rcases h'.status with hs | hs
  · exact hs ▸ h.status
  · exact .inr hs

theorem of_same (hp : vm'.program = vm.program) (hi : vm'.instructionPointer = vm.instructionPointer)
    (hs : vm'.status = vm.status) : vm.InPlace vm' := ⟨hp, hi, .inl hs⟩

/-- The same after a change to the other parts. -/
theorem after {vm₁ : Vm} (h : vm₁.InPlace vm') (hp : vm₁.program = vm.program)
    (hi : vm₁.instructionPointer = vm.instructionPointer) (hs : vm₁.status = vm.status) : vm.InPlace vm' :=
  (of_same hp hi hs).trans h

theorem chains : Chains Vm.InPlace := ⟨fun _ => of_same rfl rfl rfl, trans⟩

theorem of_quiet (h : vm.Quiet vm') : vm.InPlace vm' := by
  have hpointer := congrArg Vm.instructionPointer h.outside
  have hstatus := congrArg Vm.status h.outside
  exact ⟨h.program, hpointer, .inl hstatus⟩

theorem writeLocal (index : Nat) (v : Value) (vm : Vm) : vm.InPlace (writeLocal index v vm) := by
  unfold Aivm.writeLocal
  split
  · exact of_same rfl rfl rfl
  · exact of_same rfl rfl rfl

theorem removeHandle (handle : Nat) (vm : Vm) : vm.InPlace (removeCompletedTaskSlot handle vm) := by
  unfold removeCompletedTaskSlot
  split
  · exact of_same rfl rfl rfl
  · exact of_same rfl rfl rfl

theorem noteSubmission (env : Env) (rt : WorkerRuntime) (index id : Nat) (payload : List Byte) (vm : Vm) :
    vm.InPlace (noteSubmission env rt index id payload vm) := by
  unfold Aivm.noteSubmission
  split
  · exact of_same rfl rfl rfl
  · exact of_same rfl rfl rfl

theorem keepTombstone {handle : Nat} {u} (h : keepTombstone handle vm = .ok u vm') : vm.InPlace vm' := by
  obtain rfl | rfl | ⟨-, -, rfl⟩ := keepTombstone_ok h
  · exact of_same rfl rfl rfl
  · exact of_same rfl rfl rfl
  · exact of_same rfl rfl rfl

theorem admits : Admits env nested Vm.InPlace where
  chains := chains
  quiet := of_quiet
  fault _ _ := ⟨rfl, rfl, .inr rfl⟩
  pair _ _ _ := of_same rfl rfl rfl
  stackLimit _ _ := of_same rfl rfl rfl
  push _ _ _ := of_same rfl rfl rfl
  pop _ := of_same rfl rfl rfl
  validate := validateCallLocalState_ends chains fun _ _ => ⟨rfl, rfl, .inr rfl⟩
  localsLimit _ _ := of_same rfl rfl rfl
  store index v vm _ _ := writeLocal index v vm
  builder _ _ _ := of_same rfl rfl rfl
  map _ _ _ := of_same rfl rfl rfl
  workerFault _ _ := ⟨rfl, rfl, .inr rfl⟩
  invocationFault _ _ _ := ⟨rfl, rfl, .inr rfl⟩
  finished _ _ _ _ _ _ := of_same rfl rfl rfl
  returned _ _ _ _ _ := of_same rfl rfl rfl
  abandoned _ _ _ := of_same rfl rfl rfl
  frameLimit _ _ := of_same rfl rfl rfl
  pushFrame _ _ _ _ _ := of_same rfl rfl rfl
  popFrame _ _ := of_same rfl rfl rfl
  leave _ _ _ := of_same rfl rfl rfl
  reuse _ _ _ _ := of_same rfl rfl rfl
  validateReturn := validateVmReturnRestore_ends chains fun _ _ => ⟨rfl, rfl, .inr rfl⟩
  openPar _ _ _ := of_same rfl rfl rfl
  addPar _ _ _ _ := of_same rfl rfl rfl
  closePar _ _ := of_same rfl rfl rfl
  reclaimed _ _ := of_same rfl rfl rfl
  entered _ _ _ := of_same rfl rfl rfl
  started _ _ _ _ _ _ := of_same rfl rfl rfl
  created _ _ _ := of_same rfl rfl rfl
  submitted _ _ _ _ := after (noteSubmission ..) rfl rfl rfl
  refused _ _ _ _ := after (removeHandle ..) rfl rfl rfl
  unheard _ _ _ _ := after (removeHandle ..) rfl rfl rfl
  workload _ _ _ _ _ _ := of_same rfl rfl rfl
  materialized {rt rt' slot g payload} vm _ _ _ _ _ _ := by
    have hnoted := noteSubmission env rt' g.workerCatalogIndex vm.nextTaskHandle payload
      (setWorkerRuntime rt' (enterTask (pendingWorkerTask g.workerCatalogIndex vm.nextTaskHandle) vm))
    exact ⟨hnoted.program, hnoted.pointer, hnoted.status⟩
  canceled _ _ _ := of_same rfl rfl rfl
  consumed _ _ hq hkeep := trans (trans hq (keepTombstone hkeep)) (trans (removeHandle ..) (of_same rfl rfl rfl))
  handled _ _ _ _ := of_same rfl rfl rfl

theorem ordinary : Ordinary Vm.InPlace := (admits : Admits .generous (fun _ => none) Vm.InPlace).toOrdinary

theorem framePush (target base : Nat) : Ends Vm.InPlace (Aivm.framePush target base) vm := by
  have hthrow : ∀ {f : Fault} {g : Unit → VmM Unit} {vm : Vm}, Ends Vm.InPlace (VmM.throw f >>= g) vm := fun {_ _ _} =>
    .bind chains (.throw ⟨rfl, rfl, .inr rfl⟩) fun _ _ h => by cases h
  refine .bind chains (ordinary.validate _ vm) fun _ vm₁ _ => .get_bind ?_
  refine .ite (fun _ => hthrow) fun _ => .modify_bind chains (of_same rfl rfl rfl) (.get_bind ?_)
  exact .ite (fun _ => hthrow) fun _ => .modify (of_same rfl rfl rfl)

/-- A machine stops with the instruction that fails. -/
theorem stops {i : Instruction} {vm₁ : Vm} (h : (beginStep i vm).InPlace vm₁) : (Aivm.settle (stopStep vm₁)).stopped = true := by
  rcases h.status with hs | hs
  · simp [Aivm.settle, stopStep, Vm.stopped, hs, beginStep, instructionCount]
  · simp [Aivm.settle, stopStep, Vm.stopped, hs]

end Vm.InPlace

/-- A machine that goes on after an instruction has executed it. -/
theorem step_executes {env : Env} {fuel : Nat} {vm vm' : Vm} {i : Instruction} (hgoes : vm.stopped = false)
    (hi : vm.program.instructions[vm.instructionPointer]? = some i) (h : step env fuel vm = some vm') :
    vm'.stopped = true ∨ ∃ u vm₁, execute env (finish env fuel) i (beginStep i vm) = .ok u vm₁ ∧ vm' = settle vm₁ := by
  unfold step stepWith at h
  rw [if_neg (by simp [hgoes]), hi] at h
  simp only at h
  split at h
  · rename_i u vm₁ hok
    cases h
    exact .inr ⟨u, vm₁, hok, rfl⟩
  · rename_i vm₁ hfail
    cases h
    have hadmits : Admits env (finish env fuel) Vm.InPlace := Vm.InPlace.admits
    have hlands : Lands Vm.InPlace (execute env (finish env fuel) i) (beginStep i vm) :=
      hadmits.execute i (List.getElem?_eq_some_iff.1 hi).1 rfl
    exact .inl (hlands.fail hfail).stops
  · cases h

/-! ## Steps -/

/-- The instruction pointer stands in the program or behind it, according to the status. -/
structure Vm.Aimed (vm : Vm) : Prop where
  within : vm.instructionPointer ≤ instructionCount vm
  running : vm.status = .running → vm.instructionPointer < instructionCount vm
  halted : vm.status = .halted → vm.instructionPointer = instructionCount vm

namespace Vm.Aimed

variable {env : Env} {nested : Vm → Option Vm} {vm vm' : Vm}

theorem settle (hw : vm.instructionPointer ≤ instructionCount vm)
    (hh : vm.status = .halted → vm.instructionPointer = instructionCount vm) : (settle vm).Aimed := by
  unfold Aivm.settle
  split
  · rename_i hend
    refine ⟨hw, fun hr => ?_, fun _ => Nat.le_antisymm hw hend.2⟩
    cases hr
  · rename_i hend
    exact ⟨hw, fun hr => Nat.lt_of_not_le fun hle => hend ⟨hr, hle⟩, hh⟩

theorem stepWith (h : Aivm.stepWith env nested vm = some vm') (hv : vm.Aimed) : vm'.Aimed ∧ vm'.program = vm.program := by
  have hadmits : Admits env nested Vm.InPlace := Vm.InPlace.admits
  obtain ⟨-, rfl⟩ | ⟨-, hend, rfl⟩ | ⟨i, vm₁, -, hi, hplace, hland⟩ := hadmits.stepWith_cases h
  · exact ⟨hv, rfl⟩
  · refine ⟨⟨hv.within, fun hr => ?_, fun _ => Nat.le_antisymm hv.within hend⟩, rfl⟩
    cases hr
  have hlt : vm.instructionPointer < instructionCount vm := (List.getElem?_eq_some_iff.1 hi).1
  have hprogram : vm₁.program = vm.program := hplace.program
  have hcount : instructionCount vm₁ = instructionCount vm := congrArg (fun p : Program => p.instructions.length) hprogram
  have hpointer : vm₁.instructionPointer = vm.instructionPointer := hplace.pointer
  have hgoing : vm₁.status ≠ .halted := by
    intro hh
    obtain hs | hs := hplace.status
    · rw [hh] at hs
      cases hs
    · rw [hh] at hs
      cases hs
  have hkept : ∀ vm : Vm, (Aivm.settle vm).program = vm.program := fun vm => by
    unfold Aivm.settle
    split <;> rfl
  obtain ⟨vm₂, hl, rfl⟩ | rfl := hland
  · cases hl with
    | stay =>
        refine ⟨settle ?_ fun hh => absurd hh hgoing, (hkept _).trans hprogram⟩
        omega
    | next =>
        refine ⟨settle ?_ fun hh => absurd hh hgoing, (hkept _).trans hprogram⟩
        change vm₁.instructionPointer + 1 ≤ instructionCount vm₁
        omega
    | goTo hle => exact ⟨settle hle fun hh => absurd hh hgoing, (hkept _).trans hprogram⟩
    | halt _ => exact ⟨settle (Nat.le_refl _) fun _ => rfl, (hkept _).trans hprogram⟩
  · exact ⟨settle (Nat.le_refl _) fun _ => rfl, (hkept _).trans hprogram⟩

/-- A machine that does not run yet may stand anywhere in its program. -/
theorem of_start (hs : vm.status = .ready ∨ vm.status = .error) (hw : vm.instructionPointer ≤ instructionCount vm) :
    vm.Aimed := by
  refine ⟨hw, fun hr => ?_, fun hh => ?_⟩
  · rcases hs with hs | hs
    · rw [hr] at hs
      cases hs
    · rw [hr] at hs
      cases hs
  · rcases hs with hs | hs
    · rw [hh] at hs
      cases hs
    · rw [hh] at hs
      cases hs

end Vm.Aimed

/-! ## Starts -/

section Starts

variable {env : Env} {vm vm' : Vm}

theorem Vm.InPlace.started (h : vm.InPlace vm') (hs : vm.status = .ready ∨ vm.status = .error) :
    vm'.status = .ready ∨ vm'.status = .error := by
  rcases h.status with he | he
  · exact he ▸ hs
  · exact .inr he

theorem resetState_started (h : resetState env vm = some vm') :
    vm'.program = vm.program ∧ vm'.instructionPointer = 0 ∧ (vm'.status = .ready ∨ vm'.status = .error) := by
  have hargv : ∀ {vm : Vm}, Ends Vm.InPlace (initializeProcessArgvNode env) vm :=
    Admits.initializeProcessArgvNode Vm.InPlace.ordinary
  have hend : ∀ {vm₁ : Vm}, (resetFields vm).InPlace vm₁ →
      vm₁.program = vm.program ∧ vm₁.instructionPointer = 0 ∧ (vm₁.status = .ready ∨ vm₁.status = .error) := fun hp =>
    ⟨hp.program, hp.pointer, hp.started (.inl rfl)⟩
  unfold resetState at h
  split at h
  · rename_i hr
    cases h
    have hp := hend (hargv.ok hr)
    exact hp
  · rename_i hr
    cases h
    have hp := hend (hargv.fail hr)
    exact hp
  · cases h

theorem initVm_started {program bindings argv profile hostClock}
    (h : initVm env program bindings argv profile hostClock = some vm) :
    vm.program = program ∧ vm.instructionPointer = 0 ∧ (vm.status = .ready ∨ vm.status = .error) := by
  simp only [initVm] at h
  split at h
  · exact resetState_started h
  · cases h

/-- A subroutine starts at its call target. -/
theorem enterSubroutine_started {owner : Vm} {target : Nat} (args : List Value) : ∀ {vm},
    (vm.status = .ready ∨ vm.status = .error) → enterSubroutine env owner target args vm = .ok () vm' →
    vm'.program = vm.program ∧ vm'.instructionPointer = target ∧ (vm'.status = .ready ∨ vm'.status = .error) := by
  induction args with
  | nil =>
      intro vm hs h
      obtain ⟨_, vm₁, hpush, h⟩ := bind_ok.1 h
      cases h
      have hp := (Vm.InPlace.framePush _ _).ok hpush
      exact ⟨hp.program, rfl, hp.started hs⟩
  | cons v args ih =>
      intro vm hs h
      obtain ⟨w, vm₁, hcopy, h⟩ := bind_ok.1 h
      obtain ⟨_, vm₂, hpush, h⟩ := bind_ok.1 h
      have hp := (Vm.InPlace.ordinary.copyWorkerBoundaryValue _ _ _).ok hcopy |>.trans
        ((Vm.InPlace.ordinary.stackPush _).ok hpush)
      obtain ⟨hprogram, htarget, hstatus⟩ := ih (hp.started hs) h
      exact ⟨hprogram.trans hp.program, htarget, hstatus⟩

theorem subroutine_aimed {owner worker : Vm} {target : Nat} {args : List Value} (ht : target < instructionCount owner)
    (hw : subroutineVm env owner = some worker) (he : enterSubroutine env owner target args worker = .ok () vm) : vm.Aimed := by
  obtain ⟨w, hinit, rfl⟩ := Option.map_eq_some_iff.1 hw
  obtain ⟨hprogram, -, hstatus⟩ := initVm_started hinit
  obtain ⟨hprogram', htarget, hstatus'⟩ := enterSubroutine_started args (by exact hstatus) he
  refine .of_start hstatus' ?_
  have hsame : vm.program = owner.program := hprogram'.trans hprogram
  rw [htarget, instructionCount, hsame]
  exact Nat.le_of_lt ht

theorem hasWorkerSignature_lt {program : Program} {target : Nat} (h : hasWorkerSignature program target = true) :
    target < program.instructions.length := by
  unfold hasWorkerSignature at h
  split at h
  · rename_i i j hi hj
    exact (List.getElem?_eq_some_iff.1 hi).1
  · cases h

/-- A worker of the catalog starts at its function. -/
theorem worker_aimed {p : WorkerProgram} {rt : WorkerRuntime} {id : Nat} {payload : List Byte}
    (hp : hasWorkerSignature p.loaded p.functionTarget = true) (h : workerVm env p rt id payload = some vm) : vm.Aimed := by
  simp only [workerVm, Option.bind_eq_bind, Option.bind_eq_some_iff] at h
  obtain ⟨vm₀, hinit, h⟩ := h
  obtain ⟨hprogram, hpointer, hstatus⟩ := initVm_started hinit
  have hwalk : Ends Vm.InPlace (do
      Aivm.stackPush (.bytes (.ext payload) payload.length)
      Aivm.framePush p.loaded.instructions.length 0 : VmM Unit) { vm₀ with syscallPolicy := p.requiredCapabilities } :=
    .bind Vm.InPlace.chains (Vm.InPlace.ordinary.stackPush _) fun _ _ _ => Vm.InPlace.framePush _ _
  split at h
  · rename_i vm₁ hr
    cases h
    have hplace := hwalk.ok hr
    refine .of_start (hplace.started hstatus) ?_
    have hsame : vm₁.program = p.loaded := hplace.program.trans hprogram
    change p.functionTarget ≤ vm₁.program.instructions.length
    rw [hsame]
    exact Nat.le_of_lt (hasWorkerSignature_lt hp)
  · rename_i hr
    cases h
    have hplace := hwalk.fail hr
    refine .of_start (hplace.started hstatus) ?_
    rw [hplace.pointer]
    exact Nat.le_trans (Nat.le_of_eq hpointer) (Nat.zero_le _)
  · cases h

end Starts

/-! ## Those who wait -/

/-- The subroutines that wait in the table, and the programs that the runtime has loaded, start inside their programs. -/
structure Vm.Guided (vm : Vm) : Prop where
  subroutines : ∀ t ∈ vm.completedTasks, ∀ worker, t.workerContext = some worker → worker.Aimed
  programs : ∀ rt, vm.workerRuntime = some rt → ∀ (index : Nat) (p : WorkerProgram), rt.programs[index]? = some (some p) →
    hasWorkerSignature p.loaded p.functionTarget = true

namespace Vm.Guided

variable {env : Env} {nested : Vm → Option Vm} {vm vm' : Vm}

/-- No other subroutine waits than before, and no other program has been loaded. -/
theorem of_fewer (h : vm.Guided) (ht : ∀ t ∈ vm'.completedTasks, ∀ worker, t.workerContext = some worker →
      ∃ t₀ ∈ vm.completedTasks, t₀.workerContext = some worker)
    (hr : ∀ rt, vm'.workerRuntime = some rt → ∃ rt₀, vm.workerRuntime = some rt₀ ∧ rt.programs = rt₀.programs) :
    vm'.Guided where
  subroutines t hm worker hw := by
    obtain ⟨t₀, ht₀, hw₀⟩ := ht t hm worker hw
    exact h.subroutines t₀ ht₀ worker hw₀
  programs rt hrt index p hp := by
    obtain ⟨rt₀, hrt₀, hprograms⟩ := hr rt hrt
    exact h.programs rt₀ hrt₀ index p (hprograms ▸ hp)

theorem of_same (h : vm.Guided) (ht : vm'.completedTasks = vm.completedTasks) (hr : vm'.workerRuntime = vm.workerRuntime) :
    vm'.Guided :=
  h.of_fewer (fun t hm _ hw => ⟨t, ht ▸ hm, hw⟩) fun rt hrt => ⟨rt, hr ▸ hrt, rfl⟩

theorem of_quiet (h : vm.Guided) (hq : vm.Quiet vm') : vm'.Guided := by
  have hr := congrArg Vm.workerRuntime hq.outside
  refine h.of_fewer (fun t hm worker hw => ?_) fun rt hrt => ⟨rt, Eq.trans (Eq.symm hr) hrt, rfl⟩
  have hs : CompletedTask.shape t ∈ vm.completedTasks.map CompletedTask.shape := hq.tasks ▸ List.mem_map_of_mem hm
  obtain ⟨t₀, ht₀, hshape⟩ := List.mem_map.1 hs
  have hcontext := congrArg CompletedTask.workerContext hshape
  exact ⟨t₀, ht₀, Eq.trans hcontext hw⟩

theorem enter (h : vm.Guided) {t : CompletedTask Vm} (ht : ∀ worker, t.workerContext = some worker → worker.Aimed) :
    (enterTask t vm).Guided where
  subroutines u hm worker hw := by
    rcases List.mem_append.1 hm with hm | hm
    · exact h.subroutines u hm worker hw
    · cases List.mem_singleton.1 hm
      exact ht worker hw
  programs := h.programs

theorem remove (h : vm.Guided) (slot : Nat) : (removeTaskSlot slot vm).Guided :=
  h.of_fewer (fun t hm _ hw => ⟨t, List.mem_of_mem_eraseIdx hm, hw⟩) fun rt hrt => ⟨rt, hrt, rfl⟩

theorem removeHandle (h : vm.Guided) (handle : Nat) : (removeCompletedTaskSlot handle vm).Guided := by
  unfold removeCompletedTaskSlot
  split
  · exact h.remove _
  · exact h

theorem modify (h : vm.Guided) (slot : Nat) {f : CompletedTask Vm → CompletedTask Vm}
    (hf : ∀ t, (f t).workerContext = t.workerContext ∨ (f t).workerContext = none) : (modifyTask slot f vm).Guided := by
  refine h.of_fewer (fun t hm worker hw => ?_) fun rt hrt => ⟨rt, hrt, rfl⟩
  obtain ⟨i, hi⟩ := List.getElem?_of_mem hm
  simp only [modifyTask, List.getElem?_modify] at hi
  obtain ⟨t₀, ht₀, rfl⟩ := Option.map_eq_some_iff.1 hi
  split at hw
  · obtain hc | hc := hf t₀
    · exact ⟨t₀, List.mem_of_getElem? ht₀, hc ▸ hw⟩
    · simp [hc] at hw
  · exact ⟨t₀, List.mem_of_getElem? ht₀, hw⟩

theorem release (h : vm.Guided) (handle : Nat) : (releaseSubmission handle vm).Guided := by
  refine h.of_fewer (fun t hm _ hw => ⟨t, hm, hw⟩) fun rt hrt => ?_
  obtain ⟨rt₀, hrt₀, rfl⟩ := Option.map_eq_some_iff.1 hrt
  exact ⟨rt₀, hrt₀, rfl⟩

theorem note (h : vm.Guided) (e : VmEvent Vm) : (noteEvent e vm).Guided := h.of_same rfl rfl

theorem noteSubmission (env : Env) (h : vm.Guided) (rt : WorkerRuntime) (index id : Nat) (payload : List Byte) :
    (noteSubmission env rt index id payload vm).Guided := by
  unfold Aivm.noteSubmission
  split
  · exact h.note _
  · exact h

theorem keepTombstone {handle : Nat} {u} (hv : vm.Guided) (h : keepTombstone handle vm = .ok u vm') : vm'.Guided := by
  obtain rfl | rfl | ⟨-, -, rfl⟩ := keepTombstone_ok h
  · exact hv
  · exact hv.of_same rfl rfl
  · exact hv.of_same rfl rfl

/-- A task is entered and its submission answered. -/
theorem submitted (h : vm.Guided) {rt rt' : WorkerRuntime} {index id handle : Nat} {payload : Option (List Byte)}
    {status : Option WorkerRuntimeStatus} (hrt : vm.workerRuntime = some rt)
    (hs : rt.submit env (enterTask (pendingWorkerTask index handle) vm) index id payload = (rt', status)) :
    (setWorkerRuntime rt' (enterTask (pendingWorkerTask index handle) vm)).Guided := by
  have hentered : (enterTask (pendingWorkerTask index handle) vm).Guided := h.enter fun _ hw => by cases hw
  refine ⟨hentered.subroutines, fun rt₁ hrt₁ i p hp => ?_⟩
  cases hrt₁
  obtain hold | ⟨_, -, hloaded⟩ := (Vm.Confined.submit_programs hs).2 i p hp
  · exact h.programs rt hrt i p hold
  · exact (Vm.Confined.workerProgramPrepare_ok hloaded).2.2

theorem admits : Admits env nested (Keeping Vm.Guided) where
  chains := Keeping.chains _
  quiet hq h := h.of_quiet hq
  fault _ _ h := h.of_same rfl rfl
  pair _ _ _ h := h.of_same rfl rfl
  stackLimit _ _ h := h.of_same rfl rfl
  push _ _ _ h := h.of_same rfl rfl
  pop _ h := h.of_same rfl rfl
  validate := validateCallLocalState_ends (Keeping.chains _) fun _ _ h => h.of_same rfl rfl
  localsLimit _ _ h := h.of_same rfl rfl
  store index v vm _ _ h := by
    unfold writeLocal
    split
    · exact h.of_same rfl rfl
    · exact h.of_same rfl rfl
  builder _ _ _ h := h.of_same rfl rfl
  map _ _ _ h := h.of_same rfl rfl
  workerFault _ _ h := h.of_same rfl rfl
  invocationFault _ _ _ h := h.of_same rfl rfl
  finished {slot t state} result vm _ _ _ _ h := by
    have hmodified : (modifyTask slot (fun t => { t with result := result, state := state }) vm).Guided :=
      h.modify slot fun _ => .inl rfl
    exact hmodified.release t.handle
  returned _ _ _ _ _ h := h.modify _ fun _ => .inr rfl
  abandoned _ _ _ h := h.release _
  frameLimit _ _ h := h.of_same rfl rfl
  pushFrame _ _ _ _ _ h := h.of_same rfl rfl
  popFrame _ _ h := h.of_same rfl rfl
  leave _ _ _ h := h.of_same rfl rfl
  reuse _ _ _ _ h := h.of_same rfl rfl
  validateReturn := validateVmReturnRestore_ends (Keeping.chains _) fun _ _ h => h.of_same rfl rfl
  openPar _ _ _ h := h.of_same rfl rfl
  addPar _ _ _ _ h := h.of_same rfl rfl
  closePar _ _ h := h.of_same rfl rfl
  reclaimed {slot} vm _ h := by
    have hskipped : (countSkipped slot vm).Guided := h.of_same rfl rfl
    exact hskipped.remove _
  entered _ _ _ h := h.enter fun _ hw => by cases hw
  started {target argCount w worker} vm _ ht _ hw he h := by
    have haimed : worker.Aimed := subroutine_aimed ht hw he
    have hstack : ({ vm with stack := vm.stack.take (vm.stack.length - argCount) } : Vm).Guided := h.of_same rfl rfl
    refine (hstack.enter fun worker' hworker => ?_).note _
    cases hworker
    exact haimed
  created {rt} vm _ hcreate h := by
    refine ⟨h.subroutines, fun rt₁ hrt₁ i p hp => ?_⟩
    cases hrt₁
    unfold WorkerRuntime.create at hcreate
    split at hcreate
    · cases hcreate
    · cases hcreate
      rw [List.getElem?_map, Option.map_eq_some_iff] at hp
      obtain ⟨_, -, hp⟩ := hp
      cases hp
  submitted _ _ hrt hs h := (h.submitted hrt hs).noteSubmission _ _ _ _ _
  refused _ _ hrt hs h := (h.submitted hrt hs).removeHandle _
  unheard _ _ _ _ h := (h.enter fun _ hw => by cases hw).removeHandle _
  workload _ _ _ _ _ _ h := h.of_same rfl rfl
  materialized {rt rt' slot g payload} vm _ hrt _ _ _ hs h := by
    have hnoted := (h.submitted hrt hs).noteSubmission env rt' g.workerCatalogIndex vm.nextTaskHandle payload
    exact hnoted.of_same rfl rfl
  canceled _ _ hrt h := by
    refine ⟨h.subroutines, fun rt₁ hrt₁ => ?_⟩
    cases hrt₁
    have hprograms := h.programs _ hrt
    exact hprograms
  consumed _ _ hq hkeep h := (((hq h).keepTombstone hkeep).removeHandle _).note _
  handled _ _ _ _ h := h.note _

theorem of_fresh {policy : UInt64} (h : vm.Fresh policy) : vm.Guided where
  subroutines t hm := by simp [h.tasks] at hm
  programs rt hrt := by simp [h.runtime] at hrt

end Vm.Guided

/-! ## Machines at work -/

section Guidance

variable {env : Env} {rights : UInt64} {vm v w : Vm}

/-- A machine that is aimed and guides those who wait for it. -/
def Vm.OnCourse (vm : Vm) : Prop := vm.Aimed ∧ vm.Guided

theorem Vm.OnCourse.step {fuel : Nat} (h : step env fuel v = some w) (hv : v.OnCourse) : w.OnCourse :=
  ⟨(Vm.Aimed.stepWith h hv.1).1, Vm.Guided.admits.stepWith (fun hb hg => hb.same ▸ hg.of_same rfl rfl) h hv.2⟩

theorem Hosted.onCourse (h : Hosted env rights vm v) (hv : vm.OnCourse) : v.OnCourse := by
  induction h with
  | itself => exact hv
  | stepped _ hstep ih => exact ih.step hstep
  | reset _ hr _ =>
      obtain ⟨-, hpointer, hstatus⟩ := resetState_started hr
      have hkeeps : Admits env (fun _ => none) (Keeping Vm.Guided) := Vm.Guided.admits
      refine ⟨.of_start hstatus (hpointer ▸ Nat.zero_le _), hkeeps.resetState hr ⟨fun t hm => ?_, fun rt hrt => ?_⟩⟩
      · cases hm
      · cases hrt
  | permitted _ _ ih => exact ⟨⟨ih.1.within, ih.1.running, ih.1.halted⟩, ih.2.of_same rfl rfl⟩
  | profiled _ _ ih => exact ⟨⟨ih.1.within, ih.1.running, ih.1.halted⟩, ih.2.of_same rfl rfl⟩

theorem Works.onCourse (h : Works env vm v) (hc : vm.Confined rights) (hv : vm.OnCourse) : v.OnCourse := by
  induction h with
  | itself => exact hv
  | stepped _ hstep ih => exact ih.step hstep
  | subroutine hworks ht hw ih =>
      exact ⟨ih.2.subroutines _ ht _ hw, .of_fresh ((hworks.confined hc).subroutines _ ht _ hw)⟩
  | worker _ hrt _ hstart ih =>
      obtain ⟨p, hp, hworker⟩ := Option.bind_eq_some_iff.1 hstart
      obtain ⟨_, -, hfresh⟩ := startedWorkerVm_fresh hstart
      exact ⟨worker_aimed (ih.2.programs _ hrt _ p (Option.join_eq_some_iff.1 hp)) hworker, .of_fresh hfresh⟩

/-- The instruction pointer of a machine and of all that runs for it stays in the program or right behind it: a machine
that runs has an instruction there, and one that has halted stands behind the last one. -/
theorem pointer_within_program {program bindings argv profile hostClock}
    (hmade : initVm env program bindings argv profile hostClock = some vm) (hp : policyWithin vm.syscallPolicy rights)
    (hv : Hosted env rights vm v) (hw : Works env v w) : w.Aimed := by
  obtain ⟨-, hpointer, hstatus⟩ := initVm_started hmade
  have hcourse : vm.OnCourse := ⟨.of_start hstatus (hpointer ▸ Nat.zero_le _), .of_fresh (Vm.Confined.initVm_fresh hmade)⟩
  exact (hw.onCourse (hv.confined (initVm_confined hmade hp)) (hv.onCourse hcourse)).1

/-- Behind the last instruction. -/
theorem errand_aimed : ∃ vm, errand 10 = some vm ∧ vm.instructionPointer = 10 ∧ vm.Aimed := by
  have hrun : (errand 10).map (·.instructionPointer) = some 10 := by decide +kernel
  obtain ⟨vm, hvm, h⟩ := Option.map_eq_some_iff.1 hrun
  obtain ⟨vm₀, hinit, hsteps⟩ := Option.bind_eq_some_iff.1 hvm
  exact ⟨vm, hvm, h, pointer_within_program hinit (.refl _) .itself (.iterate hsteps .itself)⟩

end Guidance

end Aivm
