import Aivm.Lib.Runs
import Aivm.Machine.Lemmas.Instructions

/-!
# Steps and machines in use

A step makes the admitted changes of its instruction, moves the instruction pointer, and keeps its books: the status, the
error text, the recent opcodes and the clock. What these changes keep holds of every machine in use, when a reset and the
settings of the host keep it too.
-/

namespace Aivm

open VmM

/-- Only the instruction pointer and the books of a step have changed; an error text is kept or gone, and no error
disappears. -/
structure Vm.Booked (vm vm' : Vm) : Prop where
  same : vm' = { vm with
    instructionPointer := vm'.instructionPointer
    status := vm'.status
    errorDetail := vm'.errorDetail
    recentOpcodes := vm'.recentOpcodes
    hostClock := vm'.hostClock }
  detail : vm'.errorDetail = vm.errorDetail ∨ vm'.errorDetail = ""
  failed : vm'.status ≠ .error → vm.status ≠ .error

theorem Vm.not_error_of_goes {vm : Vm} (h : vm.stopped = false) : vm.status ≠ .error := by
  intro he
  simp [Vm.stopped, he] at h

namespace Vm.Booked

variable {vm vm' vm'' : Vm}

theorem refl (vm : Vm) : vm.Booked vm := by
  refine ⟨?_, .inl rfl, id⟩
  cases vm
  rfl

theorem begins (i : Instruction) (h : vm.stopped = false) : vm.Booked (beginStep i vm) :=
  ⟨rfl, .inr rfl, fun _ => Vm.not_error_of_goes h⟩

theorem settles (vm : Vm) : vm.Booked (settle vm) := by
  unfold settle
  split
  · rename_i hrunning
    exact ⟨rfl, .inl rfl, fun _ he => by simp [he] at hrunning⟩
  · exact refl vm

theorem stops (vm : Vm) : vm.Booked (stopStep vm) := ⟨rfl, .inl rfl, id⟩

theorem of_landing (h : Landing vm vm') : vm.Booked vm' := by
  cases h with
  | stay => exact refl vm
  | next => exact ⟨rfl, .inl rfl, id⟩
  | goTo _ => exact ⟨rfl, .inl rfl, id⟩
  | halt hne => exact ⟨rfl, .inl rfl, fun _ => hne⟩

theorem trans (h : vm.Booked vm') (h' : vm'.Booked vm'') : vm.Booked vm'' := by
  refine ⟨?_, ?_, fun hne => h.failed (h'.failed hne)⟩
  · rw [h'.same, h.same]
  · rcases h'.detail with hd | hd
    · exact hd ▸ h.detail
    · exact .inr hd

end Vm.Booked

/-- One step of a machine, labelled with its fuel. -/
def Steps (env : Env) (vm : Vm) (fuel : Nat) (vm' : Vm) : Prop := step env fuel vm = some vm'

/-- A machine that has stopped stays as it is. -/
theorem step_stopped {env : Env} {fuel : Nat} {vm vm' : Vm} (hs : vm.stopped = true)
    (h : step env fuel vm = some vm') : vm' = vm := by
  unfold step stepWith at h
  rw [if_pos hs] at h
  cases h
  rfl

/-- What a step does: nothing, or what one instruction does between two settlings of the books. -/
theorem stepWith_lands {env : Env} {nested : Vm → Option Vm} {Q : Vm → Vm → Prop} {vm vm' : Vm}
    (hlands : ∀ i, vm.program.instructions[vm.instructionPointer]? = some i → Lands Q (execute env nested i) (beginStep i vm))
    (h : stepWith env nested vm = some vm') :
    (vm.stopped = true ∧ vm' = vm) ∨
      (vm.stopped = false ∧ instructionCount vm ≤ vm.instructionPointer ∧ vm' = { vm with status := .halted }) ∨
      ∃ i vm₁, vm.stopped = false ∧ vm.program.instructions[vm.instructionPointer]? = some i ∧
        Q (beginStep i vm) vm₁ ∧ ((∃ vm₂, Landing vm₁ vm₂ ∧ vm' = settle vm₂) ∨ vm' = settle (stopStep vm₁)) := by
  unfold stepWith at h
  split at h
  · rename_i hstopped
    cases h
    exact .inl ⟨hstopped, rfl⟩
  rename_i hstopped
  have hgoes : vm.stopped = false := Bool.eq_false_iff.2 hstopped
  cases hi : vm.program.instructions[vm.instructionPointer]? with
  | none =>
      rw [hi] at h
      cases h
      exact .inr (.inl ⟨hgoes, List.getElem?_eq_none_iff.1 hi, rfl⟩)
  | some i =>
      simp only [hi] at h
      split at h
      · rename_i u vm₁ hx
        cases h
        obtain ⟨vm₂, hq, hl⟩ := (hlands i hi).ok hx
        exact .inr (.inr ⟨i, vm₂, hgoes, rfl, hq, .inl ⟨vm₁, hl, rfl⟩⟩)
      · rename_i vm₁ hx
        cases h
        exact .inr (.inr ⟨i, vm₁, hgoes, rfl, (hlands i hi).fail hx, .inr rfl⟩)
      · cases h

/-- The changes of the instruction are admitted. -/
theorem Admits.stepWith_cases {env : Env} {nested : Vm → Option Vm} {Q : Vm → Vm → Prop} (hc : Admits env nested Q)
    {vm vm' : Vm} (h : stepWith env nested vm = some vm') :
    (vm.stopped = true ∧ vm' = vm) ∨
      (vm.stopped = false ∧ instructionCount vm ≤ vm.instructionPointer ∧ vm' = { vm with status := .halted }) ∨
      ∃ i vm₁, vm.stopped = false ∧ vm.program.instructions[vm.instructionPointer]? = some i ∧
        Q (beginStep i vm) vm₁ ∧ ((∃ vm₂, Landing vm₁ vm₂ ∧ vm' = settle vm₂) ∨ vm' = settle (stopStep vm₁)) :=
  stepWith_lands (fun i hi => hc.execute i (List.getElem?_eq_some_iff.1 hi).1 rfl) h

/-- A predicate of machines that a reset, the settings of the host and the books of a step keep. -/
structure Survives (I : Vm → Prop) : Prop where
  fresh : ∀ program bindings argv profile hostClock, I (resetFields { setRuntimeProfile profile (zeroedVm program) with
    syscallBindings := bindings, processArgv := argv, hostClock := hostClock })
  reset : ∀ {vm}, I vm → I (resetFields vm)
  profiled : ∀ {vm} profile, I vm → I (setRuntimeProfile profile vm)
  configured : ∀ {vm} policy bindings argv clock, I vm →
    I { vm with syscallPolicy := policy, syscallBindings := bindings, processArgv := argv, hostClock := clock }
  booked : ∀ {vm vm'}, vm.Booked vm' → I vm → I vm'

namespace Admits

variable {env : Env} {nested : Vm → Option Vm} {I : Vm → Prop} {vm vm' : Vm}

/-- A relation that admits the changes of an instruction and the books of a step holds across a step. -/
theorem stepWith {Q : Vm → Vm → Prop} (hc : Admits env nested Q) (hb : ∀ {vm vm'}, vm.Booked vm' → Q vm vm')
    (h : Aivm.stepWith env nested vm = some vm') : Q vm vm' := by
  obtain ⟨-, rfl⟩ | ⟨hgoes, -, rfl⟩ | ⟨i, vm₁, hgoes, -, hq, hend⟩ := hc.stepWith_cases h
  · exact hc.chains.refl vm'
  · exact hb ⟨rfl, .inl rfl, fun _ => Vm.not_error_of_goes hgoes⟩
  · have h₁ := hc.chains.trans (hb (.begins i hgoes)) hq
    obtain ⟨vm₂, hl, rfl⟩ | rfl := hend
    · exact hc.chains.trans h₁ (hb ((Vm.Booked.of_landing hl).trans (.settles vm₂)))
    · exact hc.chains.trans h₁ (hb ((Vm.Booked.stops vm₁).trans (.settles _)))

/-- And so by a whole run, where the runs of workers keep it when this one does. -/
theorem finish (hc : ∀ {nested}, (∀ {vm vm'}, nested vm = some vm' → I vm → I vm') → Admits env nested (Keeping I))
    (hb : ∀ {vm vm'}, vm.Booked vm' → I vm → I vm') {fuel : Nat} :
    ∀ {vm vm'}, Aivm.finish env fuel vm = some vm' → I vm → I vm' := by
  induction fuel with
  | zero =>
      intro vm vm' h
      cases h
  | succ fuel ih =>
      intro vm vm' h hi
      unfold Aivm.finish at h
      split at h
      · cases h
        exact hi
      cases hstep : Aivm.stepWith env (Aivm.finish env fuel) vm with
      | none =>
          rw [hstep] at h
          cases h
      | some vm₁ =>
          rw [hstep] at h
          exact ih h ((hc ih).stepWith (fun {_ _} => hb) hstep hi)

theorem initializeProcessArgvNode {Q : Vm → Vm → Prop} (hc : Ordinary Q) : Ends Q (Aivm.initializeProcessArgvNode env) vm := by
  refine hc.modify_bind ⟨rfl, Nat.le_refl _⟩ (.get_bind (hc.bind (hc.routine _) fun k vm₁ => ?_))
  exact hc.modify_bind ⟨rfl, Nat.le_refl _⟩ (hc.bind (hc.routine _) fun _ _ => hc.routine _)

theorem resetState (hc : Admits env nested (Keeping I)) (h : Aivm.resetState env vm = some vm')
    (hi : I (resetFields vm)) : I vm' := by
  have hargv : Ends (Keeping I) (Aivm.initializeProcessArgvNode env) (resetFields vm) :=
    initializeProcessArgvNode hc.toOrdinary
  have hcount : ∀ {vm}, I vm → I { vm with nodeAllocationsSinceGc := 0 } := fun {vm} h =>
    have hq : vm.Quiet { vm with nodeAllocationsSinceGc := 0 } := ⟨rfl, Nat.le_refl _⟩
    hc.quiet hq h
  unfold Aivm.resetState at h
  split at h
  · rename_i hr
    cases h
    exact hcount (hargv.ok hr hi)
  · rename_i hr
    cases h
    exact hcount (hargv.fail hr hi)
  · cases h

theorem initVm (hc : Admits env nested (Keeping I)) (hs : Survives I) {program bindings argv profile hostClock}
    (h : Aivm.initVm env program bindings argv profile hostClock = some vm) : I vm := by
  simp only [Aivm.initVm] at h
  split at h
  · exact hc.resetState h (hs.fresh program bindings argv profile hostClock)
  · cases h

/-- The program of a machine that has just been made. -/
theorem initVm_fresh {program bindings argv profile hostClock}
    (h : Aivm.initVm env program bindings argv profile hostClock = some vm) :
    vm.program = program ∧ vm.callFrames = [] := by
  have hargv : ∀ {vm : Vm}, Ends Vm.Untouched (Aivm.initializeProcessArgvNode env) vm :=
    initializeProcessArgvNode Vm.Untouched.ordinary
  simp only [Aivm.initVm] at h
  split at h
  · unfold Aivm.resetState at h
    split at h
    · rename_i hr
      cases h
      have hu := hargv.ok hr
      exact ⟨hu.program, hu.callFrames⟩
    · rename_i hr
      cases h
      have hu := hargv.fail hr
      exact ⟨hu.program, hu.callFrames⟩
    · cases h
  · cases h

/-- The first frame of a machine. -/
theorem firstFrame (hc : Admits env nested (Keeping I)) {target : Nat} (ht : target ≤ instructionCount vm)
    (hframes : vm.callFrames = []) : Ends (Keeping I) (Aivm.framePush target 0) vm :=
  hc.framePush ht fun frame hf => by simp [hframes] at hf

theorem workerVm (hc : Admits env nested (Keeping I)) (hs : Survives I) {p rt id payload}
    (h : Aivm.workerVm env p rt id payload = some vm) : I vm := by
  simp only [Aivm.workerVm, Option.bind_eq_bind, Option.bind_eq_some_iff] at h
  obtain ⟨vm₀, hinit, h⟩ := h
  obtain ⟨hprogram, hframes⟩ := initVm_fresh hinit
  have h₀ : I { vm₀ with syscallPolicy := p.requiredCapabilities } :=
    hs.configured p.requiredCapabilities vm₀.syscallBindings vm₀.processArgv vm₀.hostClock (hc.initVm hs hinit)
  have hpush : Ends (Keeping I) (do
      Aivm.stackPush (.bytes (.ext payload) payload.length)
      Aivm.framePush p.loaded.instructions.length 0 : VmM Unit) { vm₀ with syscallPolicy := p.requiredCapabilities } := by
    refine .bind hc.chains (hc.stackPush _) fun _ vm₁ hpush => ?_
    have hu := (Vm.Untouched.ordinary.stackPush _).ok hpush
    refine hc.firstFrame ?_ (hu.callFrames.trans hframes)
    rw [instructionCount, hu.program, hprogram]
  split at h
  · rename_i hr
    cases h
    exact hs.booked ⟨rfl, .inl rfl, fun hne => hne⟩ (hpush.ok hr h₀)
  · rename_i hr
    cases h
    exact hpush.fail hr h₀
  · cases h

theorem enterSubroutine (hc : Admits env nested (Keeping I)) (hs : Survives I) {owner : Vm} {target : Nat} (args : List Value) :
    ∀ {vm}, vm.program = owner.program → vm.callFrames = [] →
      Ends (Keeping I) (Aivm.enterSubroutine env owner target args) vm := by
  induction args with
  | nil =>
      intro vm hprogram hframes
      refine .bind hc.chains (hc.firstFrame (by rw [instructionCount, instructionCount, hprogram]) hframes) fun _ vm₁ _ => ?_
      exact .modify fun h => hs.booked ⟨rfl, .inl rfl, fun hne => hne⟩ h
  | cons v args ih =>
      intro vm hprogram hframes
      refine .bind hc.chains (hc.copyWorkerBoundaryValue _ _ _) fun w vm₁ hcopy => ?_
      have hu := (Vm.Untouched.ordinary.copyWorkerBoundaryValue _ _ _).ok hcopy
      refine .bind hc.chains (hc.stackPush _) fun _ vm₂ hpush => ?_
      have hu' := (Vm.Untouched.ordinary.stackPush _).ok hpush
      exact ih (hu'.program.trans (hu.program.trans hprogram)) (hu'.callFrames.trans (hu.callFrames.trans hframes))

theorem subroutineVm (hc : Admits env nested (Keeping I)) (hs : Survives I) {owner : Vm}
    (h : Aivm.subroutineVm env owner = some vm) : I vm ∧ vm.program = owner.program ∧ vm.callFrames = [] := by
  obtain ⟨w, hinit, rfl⟩ := Option.map_eq_some_iff.1 h
  obtain ⟨hprogram, hframes⟩ := initVm_fresh hinit
  refine ⟨?_, hprogram, hframes⟩
  exact hs.configured policyAllowNone w.syscallBindings w.processArgv w.hostClock
    (hs.profiled owner.runtimeProfile (hc.initVm hs hinit))

/-- What is kept so holds of every machine in use. -/
theorem arises (hc : ∀ {nested}, (∀ {vm vm'}, nested vm = some vm' → I vm → I vm') → Admits env nested (Keeping I))
    (hs : Survives I) (h : Arises env vm) : I vm := by
  have hc₀ : Admits env (fun _ => none) (Keeping I) := hc fun h => by cases h
  induction h with
  | made h => exact hc₀.initVm hs h
  | worker h => exact hc₀.workerVm hs h
  | subroutine hw he =>
      obtain ⟨hi, hprogram, hframes⟩ := hc₀.subroutineVm hs hw
      exact (hc₀.enterSubroutine hs _ hprogram hframes).ok he hi
  | @stepped vm fuel vm' _ hstep ih => exact (hc (Admits.finish hc hs.booked)).stepWith hs.booked hstep ih
  | reset _ hr ih => exact hc₀.resetState hr (hs.reset ih)
  | profiled profile _ ih => exact hs.profiled profile ih
  | @permitted vm policy _ ih => exact hs.configured policy vm.syscallBindings vm.processArgv vm.hostClock ih

end Admits

/-! ## Runs on a host -/

/-- Steps of one fuel are a run. -/
theorem iterate_runs {env : Env} {fuel n : Nat} {vm vm' : Vm} (h : Trails.iterate (step env fuel) n vm = some vm') :
    ∃ fuels, Runs.Run (Steps env) vm fuels vm' := by
  refine Trails.iterate_keeps (I := fun v => ∃ fuels, Runs.Run (Steps env) vm fuels v) ?_ h ⟨[], .start⟩
  rintro v v' hstep ⟨fuels, hrun⟩
  exact ⟨fuels ++ [fuel], .next hrun hstep⟩

/-- A host with threads. -/
def Env.threaded : Env := { Env.generous with startsThread := fun _ => true, startsScheduler := fun _ => true }

/-- Starts a task and awaits it twice. In between, it calls the function of the task. -/
def errandProgram : Program where
  instructions := [⟨.asyncCall, 8⟩, ⟨.storeLocal, 0⟩, ⟨.loadLocal, 0⟩, ⟨.await, 0⟩, ⟨.pop, 0⟩, ⟨.call, 8⟩,
    ⟨.loadLocal, 0⟩, ⟨.await, 0⟩, ⟨.pushInt, 5⟩, ⟨.ret, 0⟩]
  constants := []
  workerCatalog := []

/-- The machine of this program after some steps. -/
def errand (steps : Nat) : Option Vm := (aivmInit .threaded errandProgram 0).bind (Trails.iterate (step .threaded 9) steps)

theorem errand_arises {steps : Nat} {vm : Vm} (h : errand steps = some vm) : Arises .threaded vm := by
  obtain ⟨vm₀, hinit, hsteps⟩ := Option.bind_eq_some_iff.1 h
  exact Trails.iterate_keeps (fun hstep ha => .stepped ha hstep) hsteps (.made hinit)

theorem errand_add {m n : Nat} {vm vm' : Vm} (h : errand m = some vm) (h' : errand (m + n) = some vm') :
    Trails.iterate (step .threaded 9) n vm = some vm' :=
  Trails.iterate_between h h'

end Aivm
