import Aivm.Machine.Lemmas.Runs

/-!
# Rights

A machine invokes a host function only where its policy allows the capability of the target. The machines that run for
it, subroutines and workers of the catalog at any depth, never get more rights than it had: a subroutine has none, and a
worker has those that its catalog entry requires, which the policy of the runtime's owner allowed when the runtime was
created.
-/

namespace Aivm

open VmM

/-! ## Masks -/

/-- Every capability of a policy is among some rights. -/
def policyWithin (policy rights : UInt64) : Prop := policy &&& ~~~rights = 0

theorem policyWithin_iff {policy rights : UInt64} :
    policyWithin policy rights ↔ ∀ i, policy.toBitVec.getLsbD i = true → rights.toBitVec.getLsbD i = true := by
  unfold policyWithin
  rw [← UInt64.toBitVec_inj]
  refine ⟨fun h i hp => ?_, fun h => BitVec.eq_of_getLsbD_eq fun i hi => ?_⟩
  · have hi := congrArg (fun b : BitVec 64 => b.getLsbD i) h
    have hlt : i < 64 := BitVec.lt_of_getLsbD hp
    simpa [hp, hlt] using hi
  · have hb := h i
    cases hp : policy.toBitVec.getLsbD i with
    | false => simp [hp]
    | true => simp [hp, hi, hb hp]

theorem policyWithin.refl (policy : UInt64) : policyWithin policy policy := policyWithin_iff.2 fun _ h => h

theorem policyWithin.trans {policy rights all : UInt64} (h : policyWithin policy rights) (h' : policyWithin rights all) :
    policyWithin policy all := policyWithin_iff.2 fun i hi => policyWithin_iff.1 h' i (policyWithin_iff.1 h i hi)

theorem policyWithin_none (rights : UInt64) : policyWithin policyAllowNone rights :=
  policyWithin_iff.2 fun i hi => by simp [policyAllowNone] at hi

theorem ne_zero_iff_getLsbD {mask : UInt64} : mask ≠ 0 ↔ ∃ i, mask.toBitVec.getLsbD i = true := by
  rw [Ne, ← UInt64.toBitVec_inj]
  refine ⟨fun h => ?_, ?_⟩
  · by_contra hn
    refine h (BitVec.eq_of_getLsbD_eq fun i hi => ?_)
    simpa using fun hb => hn ⟨i, hb⟩
  · rintro ⟨i, hi⟩ h
    simp [h] at hi

/-- Wider rights allow what narrower ones allow. -/
theorem policyWithin.allows {policy rights : UInt64} (h : policyWithin policy rights) {capability : SyscallCapability}
    (ha : policyAllows policy capability = true) : policyAllows rights capability = true := by
  simp only [policyAllows, decide_eq_true_eq] at ha ⊢
  refine ⟨ha.1, ?_⟩
  obtain ⟨i, hi⟩ := ne_zero_iff_getLsbD.1 ha.2
  rw [UInt64.toBitVec_and, BitVec.getLsbD_and, Bool.and_eq_true] at hi
  refine ne_zero_iff_getLsbD.2 ⟨i, ?_⟩
  rw [UInt64.toBitVec_and, BitVec.getLsbD_and, policyWithin_iff.1 h i hi.1, hi.2]
  rfl

theorem policyAllows_none (capability : SyscallCapability) : policyAllows policyAllowNone capability = false := by
  simp [policyAllows, policyAllowNone]

/-! ## Confined machines -/

/-- A machine that has just been made for another one. -/
structure Vm.Fresh (policy : UInt64) (vm : Vm) : Prop where
  policy : vm.syscallPolicy = policy
  runtime : vm.workerRuntime = none
  tasks : vm.completedTasks = []
  events : vm.events = []

/-- The program that a runtime has loaded for an entry of the catalog has the rights that the entry requires, and the
policy of the runtime's owner allowed them. -/
def WorkerRuntime.Chartered (rt : WorkerRuntime) (catalog : List WorkerCatalogEntry) : Prop :=
  ∀ (index : Nat) (p : WorkerProgram), rt.programs[index]? = some (some p) → ∃ entry : WorkerCatalogEntry,
    catalog[index]? = some entry ∧ p.requiredCapabilities = entry.requiredMask ∧
      policyWithin entry.requiredMask rt.parentPolicy

/-- A machine that has, gives and has used no more than some rights. -/
structure Vm.Confined (rights : UInt64) (vm : Vm) : Prop where
  policy : policyWithin vm.syscallPolicy rights
  runtime : ∀ rt, vm.workerRuntime = some rt → policyWithin rt.parentPolicy rights ∧ rt.Chartered vm.program.workerCatalog
  subroutines : ∀ t ∈ vm.completedTasks, ∀ worker, t.workerContext = some worker → worker.Fresh policyAllowNone
  handlers : ∀ target, .handlerInvoked target ∈ vm.events → policyAllows rights (contractCapability target) = true

theorem Vm.Fresh.confined {policy : UInt64} {vm : Vm} (h : vm.Fresh policy) : vm.Confined policy where
  policy := h.policy ▸ .refl _
  runtime rt hrt := by simp [h.runtime] at hrt
  subroutines t ht := by simp [h.tasks] at ht
  handlers target ht := by simp [h.events] at ht

namespace Vm.Confined

variable {env : Env} {nested : Vm → Option Vm} {rights : UInt64} {vm vm' : Vm}

/-- What a machine is confined by does not depend on what lies outside its policy, its workers and its events. -/
theorem of_same (h : vm.Confined rights) (hp : vm'.syscallPolicy = vm.syscallPolicy) (hpr : vm'.program = vm.program)
    (hr : vm'.workerRuntime = vm.workerRuntime) (he : vm'.events = vm.events)
    (ht : ∀ t ∈ vm'.completedTasks, ∀ worker, t.workerContext = some worker → worker.Fresh policyAllowNone) :
    vm'.Confined rights where
  policy := hp ▸ h.policy
  runtime rt hrt := by
    obtain ⟨hw, hc⟩ := h.runtime rt (hr ▸ hrt)
    exact ⟨hw, hpr ▸ hc⟩
  subroutines := ht
  handlers := he ▸ h.handlers

theorem of_quiet (h : vm.Confined rights) (hq : vm.Quiet vm') : vm'.Confined rights := by
  have hp := congrArg Vm.syscallPolicy hq.outside
  have hr := congrArg Vm.workerRuntime hq.outside
  have he := congrArg Vm.events hq.outside
  refine h.of_same hp hq.program hr he fun t ht worker hw => ?_
  -- A collection may move the result of a task, not its worker.
  have hs : CompletedTask.shape t ∈ vm.completedTasks.map CompletedTask.shape := hq.tasks ▸ List.mem_map_of_mem ht
  obtain ⟨t₀, ht₀, hshape⟩ := List.mem_map.1 hs
  have hcontext := congrArg CompletedTask.workerContext hshape
  exact h.subroutines t₀ ht₀ worker (Eq.trans hcontext hw)

theorem of_tasks (h : vm.Confined rights) {tasks : List (CompletedTask Vm)}
    (ht : ∀ t ∈ tasks, t ∈ vm.completedTasks ∨ t.workerContext = none) :
    ({ vm with completedTasks := tasks } : Vm).Confined rights := by
  refine h.of_same rfl rfl rfl rfl fun t hm worker hw => ?_
  obtain hm | hn := ht t hm
  · exact h.subroutines t hm worker hw
  · simp [hn] at hw

theorem enter (h : vm.Confined rights) {t : CompletedTask Vm}
    (ht : ∀ worker, t.workerContext = some worker → worker.Fresh policyAllowNone) : (enterTask t vm).Confined rights := by
  refine h.of_same rfl rfl rfl rfl fun t' hm worker hw => ?_
  rcases List.mem_append.1 hm with hm | hm
  · exact h.subroutines t' hm worker hw
  · cases List.mem_singleton.1 hm
    exact ht worker hw

theorem remove (h : vm.Confined rights) (slot : Nat) : (removeTaskSlot slot vm).Confined rights :=
  h.of_same rfl rfl rfl rfl fun t ht => h.subroutines t (List.mem_of_mem_eraseIdx ht)

theorem removeHandle (h : vm.Confined rights) (handle : Nat) : (removeCompletedTaskSlot handle vm).Confined rights := by
  unfold removeCompletedTaskSlot
  split
  · exact h.remove _
  · exact h

theorem modify (h : vm.Confined rights) (slot : Nat) {f : CompletedTask Vm → CompletedTask Vm}
    (hf : ∀ t, (f t).workerContext = t.workerContext ∨ (f t).workerContext = none) : (modifyTask slot f vm).Confined rights := by
  refine h.of_same rfl rfl rfl rfl fun t ht worker hw => ?_
  obtain ⟨i, hi⟩ := List.getElem?_of_mem ht
  simp only [modifyTask, List.getElem?_modify] at hi
  obtain ⟨t₀, ht₀, rfl⟩ := Option.map_eq_some_iff.1 hi
  have hm := List.mem_of_getElem? ht₀
  split at hw
  · obtain hc | hc := hf t₀
    · exact h.subroutines t₀ hm worker (hc ▸ hw)
    · simp [hc] at hw
  · exact h.subroutines t₀ hm worker hw

/-- Any event but the invocation of a handler. -/
theorem note (h : vm.Confined rights) {e : VmEvent Vm} (he : ∀ target, e ≠ .handlerInvoked target) :
    (noteEvent e vm).Confined rights where
  policy := h.policy
  runtime := h.runtime
  subroutines := h.subroutines
  handlers target ht := by
    rcases List.mem_append.1 ht with ht | ht
    · exact h.handlers target ht
    · exact absurd (List.mem_singleton.1 ht).symm (he target)

theorem noteSubmission (env : Env) (h : vm.Confined rights) (rt : WorkerRuntime) (index id : Nat) (payload : List Byte) :
    (noteSubmission env rt index id payload vm).Confined rights := by
  unfold Aivm.noteSubmission
  split
  · exact h.note (by simp)
  · exact h

theorem setRuntime (h : vm.Confined rights) {rt : WorkerRuntime}
    (hrt : policyWithin rt.parentPolicy rights ∧ rt.Chartered vm.program.workerCatalog) :
    (setWorkerRuntime rt vm).Confined rights where
  policy := h.policy
  runtime rt' hrt' := by
    cases hrt'
    exact hrt
  subroutines := h.subroutines
  handlers := h.handlers

/-! ### The runtime -/

theorem workerProgramPrepare_ok {entry : WorkerCatalogEntry} {parentPolicy : UInt64} {p : WorkerProgram}
    (h : workerProgramPrepare env vm entry parentPolicy = .ok p) :
    p.requiredCapabilities = entry.requiredMask ∧ policyWithin entry.requiredMask parentPolicy ∧
      hasWorkerSignature p.loaded p.functionTarget = true := by
  unfold workerProgramPrepare at h
  split at h
  · cases h
  split at h
  · cases h
  rename_i hwithin
  split at h
  · cases h
  split at h
  · split at h
    · rename_i hsigned
      cases h
      exact ⟨rfl, not_not.1 hwithin, hsigned⟩
    · cases h
  · cases h

/-- A program is found, or it is loaded into its place. -/
theorem prepareProgram_cases {rt rt' : WorkerRuntime} {index : Nat} {p : WorkerProgram}
    (h : rt.prepareProgram env vm index = .ok (rt', p)) :
    rt' = rt ∨ ∃ entry, vm.program.workerCatalog[index]? = some entry ∧
      workerProgramPrepare env vm entry rt.parentPolicy = .ok p ∧
      rt' = { rt with programs := rt.programs.set index (some p) } := by
  unfold WorkerRuntime.prepareProgram at h
  split at h
  · cases h
  · cases h
    exact .inl rfl
  split at h
  · cases h
  rename_i entry hentry
  split at h
  · cases h
  rename_i p' hprepare
  cases h
  exact .inr ⟨entry, hentry, hprepare, rfl⟩

/-- Only the program of a submission may be new afterwards, and its owner is the same. -/
theorem submit_programs {rt rt' : WorkerRuntime} {index id : Nat} {payload : Option (List Byte)}
    {status : Option WorkerRuntimeStatus}
    (h : rt.submit env vm index id payload = (rt', status)) :
    rt'.parentPolicy = rt.parentPolicy ∧ ∀ (i : Nat) (p : WorkerProgram), rt'.programs[i]? = some (some p) →
      rt.programs[i]? = some (some p) ∨ ∃ entry, vm.program.workerCatalog[i]? = some entry ∧
        workerProgramPrepare env vm entry rt.parentPolicy = .ok p := by
  have hkept : ∀ {rt₁ q}, rt.prepareProgram env vm index = .ok (rt₁, q) → rt₁.parentPolicy = rt.parentPolicy ∧
      ∀ (i : Nat) (p : WorkerProgram), rt₁.programs[i]? = some (some p) → rt.programs[i]? = some (some p) ∨
        ∃ entry, vm.program.workerCatalog[i]? = some entry ∧ workerProgramPrepare env vm entry rt.parentPolicy = .ok p := by
    intro rt₁ q hprepare
    obtain rfl | ⟨entry, hentry, hloaded, rfl⟩ := prepareProgram_cases hprepare
    · exact ⟨rfl, fun _ _ hp => .inl hp⟩
    refine ⟨rfl, fun i p hp => ?_⟩
    by_cases hi : index = i
    · subst hi
      rw [List.getElem?_set_self'] at hp
      obtain ⟨_, -, hp⟩ := Option.map_eq_some_iff.1 hp
      cases hp
      exact .inr ⟨entry, hentry, hloaded⟩
    · rw [List.getElem?_set_ne hi] at hp
      exact .inl hp
  have hsame : rt.parentPolicy = rt.parentPolicy ∧ ∀ (i : Nat) (p : WorkerProgram), rt.programs[i]? = some (some p) →
      rt.programs[i]? = some (some p) ∨ ∃ entry, vm.program.workerCatalog[i]? = some entry ∧
        workerProgramPrepare env vm entry rt.parentPolicy = .ok p := ⟨rfl, fun _ _ hp => .inl hp⟩
  unfold WorkerRuntime.submit at h
  split at h
  · cases h
    exact hsame
  split at h
  · cases h
    exact hsame
  split at h
  · cases h
    exact hsame
  split at h
  · cases h
    exact hsame
  split at h
  · cases h
    exact hsame
  rename_i rt₁ p hprepare
  split at h
  · cases h
    exact hkept hprepare
  split at h
  · cases h
    exact hkept hprepare
  · cases h
    have hprepared := hkept hprepare
    exact hprepared

theorem submit_chartered {rt rt' : WorkerRuntime} {index id : Nat} {payload : Option (List Byte)}
    {status : Option WorkerRuntimeStatus} (hc : rt.Chartered vm.program.workerCatalog)
    (h : rt.submit env vm index id payload = (rt', status)) :
    rt'.Chartered vm.program.workerCatalog ∧ rt'.parentPolicy = rt.parentPolicy := by
  obtain ⟨hparent, hprograms⟩ := submit_programs h
  refine ⟨fun i p hp => ?_, hparent⟩
  obtain hold | ⟨entry, hentry, hloaded⟩ := hprograms i p hp
  · obtain ⟨entry, hentry, hmask, hwithin⟩ := hc i p hold
    exact ⟨entry, hentry, hmask, hparent ▸ hwithin⟩
  · obtain ⟨hmask, hwithin, -⟩ := workerProgramPrepare_ok hloaded
    exact ⟨entry, hentry, hmask, hparent ▸ hwithin⟩

/-- A task is entered and its submission answered. -/
theorem submitted (h : vm.Confined rights) {rt rt' : WorkerRuntime} {index id handle : Nat} {payload : Option (List Byte)}
    {status : Option WorkerRuntimeStatus} (hrt : vm.workerRuntime = some rt)
    (hs : rt.submit env (enterTask (pendingWorkerTask index handle) vm) index id payload = (rt', status)) :
    (setWorkerRuntime rt' (enterTask (pendingWorkerTask index handle) vm)).Confined rights := by
  have hentered : (enterTask (pendingWorkerTask index handle) vm).Confined rights := h.enter fun _ hw => by cases hw
  obtain ⟨hwithin, hc⟩ := hentered.runtime rt hrt
  obtain ⟨hc', hparent⟩ := submit_chartered hc hs
  exact hentered.setRuntime ⟨hparent ▸ hwithin, hc'⟩

theorem keepTombstone {handle : Nat} {u} (hv : vm.Confined rights) (h : keepTombstone handle vm = .ok u vm') :
    vm'.Confined rights := by
  obtain rfl | rfl | ⟨-, -, rfl⟩ := keepTombstone_ok h
  · exact hv
  · exact hv.of_same rfl rfl rfl rfl hv.subroutines
  · exact hv.of_same rfl rfl rfl rfl hv.subroutines

/-! ### Subroutines -/

/-- What a machine is when its first frame is pushed. -/
def Entered (vm vm' : Vm) : Prop :=
  vm'.syscallPolicy = vm.syscallPolicy ∧ vm'.workerRuntime = vm.workerRuntime ∧ vm'.events = vm.events ∧
    vm'.completedTasks.map CompletedTask.shape = vm.completedTasks.map CompletedTask.shape

theorem Entered.chains : Chains Entered where
  refl _ := ⟨rfl, rfl, rfl, rfl⟩
  trans h h' := ⟨h'.1.trans h.1, h'.2.1.trans h.2.1, h'.2.2.1.trans h.2.2.1, h'.2.2.2.trans h.2.2.2⟩

theorem Entered.of_untouched (h : vm.Untouched vm') : Entered vm vm' := by
  have hp := congrArg Vm.syscallPolicy h
  have he := congrArg Vm.events h
  exact ⟨hp, h.workerRuntime, he, h.tasks⟩

theorem Entered.framePush (target base : Nat) : Ends Entered (Aivm.framePush target base) vm := by
  have hthrow : ∀ {f : Fault} {g : Unit → VmM Unit} {vm : Vm}, Ends Entered (VmM.throw f >>= g) vm := fun {_ _ _} =>
    .bind chains (.throw ⟨rfl, rfl, rfl, rfl⟩) fun _ _ h => by cases h
  refine .bind chains ((Vm.Untouched.ordinary.validate _ vm).mono fun _ => of_untouched) fun _ vm₁ _ => .get_bind ?_
  refine .ite (fun _ => hthrow) fun _ => .modify_bind chains ⟨rfl, rfl, rfl, rfl⟩ (.get_bind ?_)
  exact .ite (fun _ => hthrow) fun _ => .modify ⟨rfl, rfl, rfl, rfl⟩

theorem Entered.fresh {policy : UInt64} (h : Entered vm vm') (hv : vm.Fresh policy) : vm'.Fresh policy where
  policy := h.1.trans hv.policy
  runtime := h.2.1.trans hv.runtime
  tasks := by simpa [hv.tasks] using h.2.2.2
  events := h.2.2.1.trans hv.events

theorem initVm_fresh {program bindings argv profile hostClock}
    (h : Aivm.initVm env program bindings argv profile hostClock = some vm) : vm.Fresh vm.syscallPolicy := by
  have hargv : ∀ {vm : Vm}, Ends Entered (Aivm.initializeProcessArgvNode env) vm := fun {vm} =>
    (Admits.initializeProcessArgvNode Vm.Untouched.ordinary).mono fun _ => Entered.of_untouched
  have hreset : ∀ vm : Vm, (resetFields vm).Fresh (resetFields vm).syscallPolicy := fun _ => ⟨rfl, rfl, rfl, rfl⟩
  have hend : ∀ {vm₀ vm : Vm}, Entered (resetFields vm₀) vm → vm.Fresh vm.syscallPolicy := by
    intro vm₀ vm he
    have hf := he.fresh (hreset vm₀)
    exact ⟨rfl, hf.runtime, hf.tasks, hf.events⟩
  simp only [Aivm.initVm] at h
  split at h
  · unfold Aivm.resetState at h
    split at h
    · rename_i hr
      cases h
      have hf := hend (hargv.ok hr)
      exact ⟨rfl, hf.runtime, hf.tasks, hf.events⟩
    · rename_i hr
      cases h
      have hf := hend (hargv.fail hr)
      exact ⟨rfl, hf.runtime, hf.tasks, hf.events⟩
    · cases h
  · cases h

/-- The worker of a subroutine has no rights. -/
theorem subroutine_fresh {owner worker : Vm} {target : Nat} {args : List Value} (hw : subroutineVm env owner = some worker)
    (he : enterSubroutine env owner target args worker = .ok () vm) : vm.Fresh policyAllowNone := by
  obtain ⟨w, hinit, rfl⟩ := Option.map_eq_some_iff.1 hw
  have hinit := initVm_fresh hinit
  have hfresh : ({ setRuntimeProfile owner.runtimeProfile w with syscallPolicy := policyAllowNone } : Vm).Fresh policyAllowNone :=
    ⟨rfl, hinit.runtime, hinit.tasks, hinit.events⟩
  have hwalk : ∀ {args vm}, Ends Entered (enterSubroutine env owner target args) vm := by
    intro args
    induction args with
    | nil => exact fun {vm} => .bind Entered.chains (Entered.framePush _ _) fun _ _ _ => .modify ⟨rfl, rfl, rfl, rfl⟩
    | cons v args ih =>
        intro vm
        refine .bind Entered.chains ?_ fun w vm₁ _ => .bind Entered.chains ?_ fun _ vm₂ _ => ih
        · exact (Vm.Untouched.ordinary.copyWorkerBoundaryValue _ _ _).mono fun _ => Entered.of_untouched
        · exact (Vm.Untouched.ordinary.stackPush _).mono fun _ => Entered.of_untouched
  exact (hwalk.ok he).fresh hfresh

/-- The worker of a catalog entry has the rights of its program. -/
theorem worker_fresh {p : WorkerProgram} {rt : WorkerRuntime} {id : Nat} {payload : List Byte}
    (h : workerVm env p rt id payload = some vm) : vm.Fresh p.requiredCapabilities := by
  simp only [workerVm, Option.bind_eq_bind, Option.bind_eq_some_iff] at h
  obtain ⟨vm₀, hinit, h⟩ := h
  have hinit := initVm_fresh hinit
  have hfresh : ({ vm₀ with syscallPolicy := p.requiredCapabilities } : Vm).Fresh p.requiredCapabilities :=
    ⟨rfl, hinit.runtime, hinit.tasks, hinit.events⟩
  have hwalk : Ends Entered (do
      Aivm.stackPush (.bytes (.ext payload) payload.length)
      Aivm.framePush p.loaded.instructions.length 0 : VmM Unit) { vm₀ with syscallPolicy := p.requiredCapabilities } :=
    .bind Entered.chains ((Vm.Untouched.ordinary.stackPush _).mono fun _ => Entered.of_untouched) fun _ _ _ =>
      Entered.framePush _ _
  split at h
  · rename_i hr
    cases h
    have hf := (hwalk.ok hr).fresh hfresh
    exact ⟨hf.policy, hf.runtime, hf.tasks, hf.events⟩
  · rename_i hr
    cases h
    exact (hwalk.fail hr).fresh hfresh
  · cases h

theorem admits : Admits env nested (Keeping (Vm.Confined rights)) where
  chains := Keeping.chains _
  quiet hq h := h.of_quiet hq
  fault _ _ h := h.of_same rfl rfl rfl rfl h.subroutines
  pair _ _ _ h := h.of_same rfl rfl rfl rfl h.subroutines
  stackLimit _ _ h := h.of_same rfl rfl rfl rfl h.subroutines
  push _ _ _ h := h.of_same rfl rfl rfl rfl h.subroutines
  pop _ h := h.of_same rfl rfl rfl rfl h.subroutines
  validate := validateCallLocalState_ends (Keeping.chains _) fun _ _ h => h.of_same rfl rfl rfl rfl h.subroutines
  localsLimit _ _ h := h.of_same rfl rfl rfl rfl h.subroutines
  store index v vm _ _ h := by
    unfold writeLocal
    split
    · exact h.of_same rfl rfl rfl rfl h.subroutines
    · exact h.of_same rfl rfl rfl rfl h.subroutines
  builder _ _ _ h := h.of_same rfl rfl rfl rfl h.subroutines
  map _ _ _ h := h.of_same rfl rfl rfl rfl h.subroutines
  workerFault _ _ h := h.of_same rfl rfl rfl rfl h.subroutines
  invocationFault _ _ _ h := h.of_same rfl rfl rfl rfl h.subroutines
  finished {slot t state} result vm _ _ _ _ h := by
    have hm : (modifyTask slot (fun t => { t with result := result, state := state }) vm).Confined rights :=
      h.modify slot fun _ => .inl rfl
    refine ⟨hm.policy, fun rt hrt => ?_, hm.subroutines, hm.handlers⟩
    obtain ⟨rt₀, hrt₀, rfl⟩ := Option.map_eq_some_iff.1 hrt
    exact hm.runtime rt₀ hrt₀
  returned _ vm _ _ _ h := h.modify _ fun _ => .inr rfl
  abandoned _ vm _ h := by
    refine ⟨h.policy, fun rt hrt => ?_, h.subroutines, h.handlers⟩
    obtain ⟨rt₀, hrt₀, rfl⟩ := Option.map_eq_some_iff.1 hrt
    exact h.runtime rt₀ hrt₀
  frameLimit _ _ h := h.of_same rfl rfl rfl rfl h.subroutines
  pushFrame _ _ _ _ _ h := h.of_same rfl rfl rfl rfl h.subroutines
  popFrame _ _ h := h.of_same rfl rfl rfl rfl h.subroutines
  leave _ _ _ h := h.of_same rfl rfl rfl rfl h.subroutines
  reuse _ _ _ _ h := h.of_same rfl rfl rfl rfl h.subroutines
  validateReturn := validateVmReturnRestore_ends (Keeping.chains _) fun _ _ h => h.of_same rfl rfl rfl rfl h.subroutines
  openPar _ _ _ h := h.of_same rfl rfl rfl rfl h.subroutines
  addPar _ _ _ _ h := h.of_same rfl rfl rfl rfl h.subroutines
  closePar _ _ h := h.of_same rfl rfl rfl rfl h.subroutines
  reclaimed {slot} vm _ h := by
    have hskipped : (countSkipped slot vm).Confined rights := h.of_same rfl rfl rfl rfl h.subroutines
    exact hskipped.remove slot
  entered _ _ _ h := h.enter fun _ hw => by cases hw
  started {target argCount w worker} vm _ _ _ hw he h := by
    have hstack : ({ vm with stack := vm.stack.take (vm.stack.length - argCount) } : Vm).Confined rights :=
      h.of_same rfl rfl rfl rfl h.subroutines
    refine (hstack.enter fun worker' hw' => ?_).note (by simp)
    cases hw'
    exact subroutine_fresh hw he
  created {rt} vm _ hcreate h := by
    refine h.setRuntime ?_
    unfold WorkerRuntime.create at hcreate
    split at hcreate
    · cases hcreate
    · cases hcreate
      refine ⟨h.policy, fun index p hp => ?_⟩
      simp only [List.getElem?_map, Option.map_eq_some_iff] at hp
      obtain ⟨_, _, hp⟩ := hp
      cases hp
  submitted vm _ hrt hs h := (h.submitted hrt hs).noteSubmission _ _ _ _ _
  refused vm _ hrt hs h := (h.submitted hrt hs).removeHandle _
  unheard _ vm _ _ h := (h.enter fun _ hw => by cases hw).removeHandle _
  workload _ _ _ _ _ _ h := by
    unfold enterWorkload
    refine Vm.Confined.note ?_ (by simp)
    exact h.of_same rfl rfl rfl rfl h.subroutines
  materialized {rt rt' slot g payload} vm _ hrt _ _ _ hs h := by
    have hnoted := (h.submitted hrt hs).noteSubmission env rt' g.workerCatalogIndex vm.nextTaskHandle payload
    exact hnoted.of_same rfl rfl rfl rfl hnoted.subroutines
  canceled _ vm hrt h := by
    obtain ⟨hwithin, hchartered⟩ := h.runtime _ hrt
    exact h.setRuntime ⟨hwithin, hchartered⟩
  consumed _ _ hq hkeep h := (((hq h).keepTombstone hkeep).removeHandle _).note (by simp)
  handled {s expected handler} vm _ hallowed _ h := by
    refine ⟨h.policy, h.runtime, h.subroutines, fun target ht => ?_⟩
    rcases List.mem_append.1 ht with ht | ht
    · exact h.handlers target ht
    · cases List.mem_singleton.1 ht
      exact h.policy.allows hallowed

theorem of_booked (hb : vm.Booked vm') (h : vm.Confined rights) : vm'.Confined rights := by
  rw [hb.same]
  exact h.of_same rfl rfl rfl rfl h.subroutines

theorem step {fuel : Nat} (h : step env fuel vm = some vm') (hv : vm.Confined rights) : vm'.Confined rights :=
  admits.stepWith of_booked h hv

theorem reset (h : resetState env vm = some vm') (hv : vm.Confined rights) : vm'.Confined rights := by
  have hkeeps : Admits env (fun _ => none) (Keeping (Vm.Confined rights)) := admits
  refine hkeeps.resetState h ⟨hv.policy, ?_, ?_, ?_⟩ <;> simp [resetFields]

end Vm.Confined

/-! ## Machines at work -/

/-- The states of a machine and of the machines that run for it. -/
inductive Works (env : Env) (vm : Vm) : Vm → Prop where
  | itself : Works env vm vm
  | stepped {v fuel v'} : Works env vm v → step env fuel v = some v' → Works env vm v'
  | subroutine {v t worker} : Works env vm v → t ∈ v.completedTasks → t.workerContext = some worker → Works env vm worker
  | worker {v rt t worker} : Works env vm v → v.workerRuntime = some rt → t ∈ rt.tasks →
      startedWorkerVm env rt t.workerCatalogIndex t.submissionId t.payload = some worker → Works env vm worker

/-- The run of a worker or a subroutine that an await waits for passes through states of the machine. -/
theorem Works.finish {env : Env} {vm v v' : Vm} {fuel : Nat} (hv : Works env vm v) (h : finish env fuel v = some v') :
    Works env vm v' := by
  induction fuel generalizing v with
  | zero => cases h
  | succ fuel ih =>
      unfold Aivm.finish at h
      split at h
      · cases h
        exact hv
      cases hstep : stepWith env (Aivm.finish env fuel) v with
      | none =>
          rw [hstep] at h
          cases h
      | some v₁ =>
          rw [hstep] at h
          have hstepped : step env fuel v = some v₁ := hstep
          exact ih (.stepped hv hstepped) h

/-- The states of a machine whose host steps it, resets it, and sets no policy beyond some rights. -/
inductive Hosted (env : Env) (rights : UInt64) (vm : Vm) : Vm → Prop where
  | itself : Hosted env rights vm vm
  | stepped {v fuel v'} : Hosted env rights vm v → step env fuel v = some v' → Hosted env rights vm v'
  | reset {v v'} : Hosted env rights vm v → resetState env v = some v' → Hosted env rights vm v'
  | permitted {v policy} : Hosted env rights vm v → policyWithin policy rights →
      Hosted env rights vm { v with syscallPolicy := policy }
  | profiled {v profile} : Hosted env rights vm v → policyWithin (setRuntimeProfile profile v).syscallPolicy rights →
      Hosted env rights vm (setRuntimeProfile profile v)

section Confinement

variable {env : Env} {rights : UInt64} {vm v w : Vm}

theorem startedWorkerVm_fresh {rt : WorkerRuntime} {index id : Nat} {payload : List Byte}
    (h : startedWorkerVm env rt index id payload = some vm) :
    ∃ p, rt.programs[index]? = some (some p) ∧ vm.Fresh p.requiredCapabilities := by
  obtain ⟨p, hp, hworker⟩ := Option.bind_eq_some_iff.1 h
  exact ⟨p, Option.join_eq_some_iff.1 hp, Vm.Confined.worker_fresh hworker⟩

/-- Whatever runs for a confined machine is confined. -/
theorem Works.confined (h : Works env vm v) (hv : vm.Confined rights) : v.Confined rights := by
  induction h with
  | itself => exact hv
  | stepped _ hstep ih => exact ih.step hstep
  | subroutine _ ht hw ih =>
      have hf := (ih.subroutines _ ht _ hw).confined
      exact { hf with
        policy := hf.policy.trans (policyWithin_none rights)
        runtime := fun rt hrt => by simp [(ih.subroutines _ ht _ hw).runtime] at hrt
        handlers := fun target he => by simp [(ih.subroutines _ ht _ hw).events] at he }
  | worker _ hrt _ hstart ih =>
      obtain ⟨p, hp, hfresh⟩ := startedWorkerVm_fresh hstart
      obtain ⟨hparent, hchartered⟩ := ih.runtime _ hrt
      obtain ⟨entry, -, hmask, hwithin⟩ := hchartered _ p hp
      have hf := hfresh.confined
      exact { hf with
        policy := hf.policy.trans (hmask ▸ hwithin.trans hparent)
        runtime := fun rt hrt => by simp [hfresh.runtime] at hrt
        handlers := fun target he => by simp [hfresh.events] at he }

theorem Hosted.confined (h : Hosted env rights vm v) (hv : vm.Confined rights) : v.Confined rights := by
  induction h with
  | itself => exact hv
  | stepped _ hstep ih => exact ih.step hstep
  | reset _ hr ih => exact ih.reset hr
  | permitted _ hp ih => exact ⟨hp, ih.runtime, ih.subroutines, ih.handlers⟩
  | profiled _ hp ih => exact ⟨hp, ih.runtime, ih.subroutines, ih.handlers⟩

end Confinement

/-! ## Which handlers are invoked -/

/-- The policy and the bindings are the same, and every handler invoked meanwhile is bound and allowed by them. -/
def Vm.Dispatches (vm vm' : Vm) : Prop :=
  vm'.syscallPolicy = vm.syscallPolicy ∧ vm'.syscallBindings = vm.syscallBindings ∧
    ∃ new, vm'.events = vm.events ++ new ∧ ∀ target, .handlerInvoked target ∈ new →
      policyAllows vm.syscallPolicy (contractCapability target) = true ∧ (findHandler vm.syscallBindings target).isSome

namespace Vm.Dispatches

variable {env : Env} {nested : Vm → Option Vm} {vm vm' vm'' : Vm}

theorem of_same (hp : vm'.syscallPolicy = vm.syscallPolicy) (hb : vm'.syscallBindings = vm.syscallBindings)
    (he : vm'.events = vm.events) : vm.Dispatches vm' :=
  ⟨hp, hb, [], he.trans (List.append_nil _).symm, fun target ht => by cases ht⟩

theorem note {e : VmEvent Vm} (he : ∀ target, e = .handlerInvoked target →
    policyAllows vm.syscallPolicy (contractCapability target) = true ∧ (findHandler vm.syscallBindings target).isSome) :
    vm.Dispatches (noteEvent e vm) :=
  ⟨rfl, rfl, [e], rfl, fun target ht => he target (List.mem_singleton.1 ht).symm⟩

theorem trans (h : vm.Dispatches vm') (h' : vm'.Dispatches vm'') : vm.Dispatches vm'' := by
  obtain ⟨hp, hb, new, he, hnew⟩ := h
  obtain ⟨hp', hb', new', he', hnew'⟩ := h'
  refine ⟨hp'.trans hp, hb'.trans hb, new ++ new', ?_, fun target ht => ?_⟩
  · rw [he', he, List.append_assoc]
  · rcases List.mem_append.1 ht with ht | ht
    · exact hnew target ht
    · rw [← hp, ← hb]
      exact hnew' target ht

/-- What has been noted stays noted. -/
theorem noted (h : vm.Dispatches vm') {e : VmEvent Vm} (he : e ∈ vm.events) : e ∈ vm'.events := by
  obtain ⟨-, -, new, hevents, -⟩ := h
  exact hevents ▸ List.mem_append_left new he

theorem chains : Chains Vm.Dispatches := ⟨fun _ => of_same rfl rfl rfl, trans⟩

theorem of_untouched (h : vm.Untouched vm') : vm.Dispatches vm' := by
  have hp := congrArg Vm.syscallPolicy h
  have hb := congrArg Vm.syscallBindings h
  have he := congrArg Vm.events h
  exact of_same hp hb he

theorem removeHandle (handle : Nat) (vm : Vm) : vm.Dispatches (removeCompletedTaskSlot handle vm) := by
  unfold removeCompletedTaskSlot
  split
  · exact of_same rfl rfl rfl
  · exact chains.refl vm

theorem noteSubmission (rt : WorkerRuntime) (index id : Nat) (payload : List Byte) (vm : Vm) :
    vm.Dispatches (noteSubmission env rt index id payload vm) := by
  unfold Aivm.noteSubmission
  split
  · exact note (by simp)
  · exact chains.refl vm

theorem keepTombstone {handle : Nat} {u} (h : keepTombstone handle vm = .ok u vm') : vm.Dispatches vm' := by
  obtain rfl | rfl | ⟨-, -, rfl⟩ := keepTombstone_ok h
  · exact chains.refl _
  · exact of_same rfl rfl rfl
  · exact of_same rfl rfl rfl

theorem admits : Admits env nested Vm.Dispatches where
  chains := chains
  quiet hq := of_untouched (.of_quiet hq)
  fault _ _ := of_same rfl rfl rfl
  pair _ _ _ := of_same rfl rfl rfl
  stackLimit _ _ := of_same rfl rfl rfl
  push _ _ _ := of_same rfl rfl rfl
  pop _ := of_same rfl rfl rfl
  validate := validateCallLocalState_ends chains fun _ _ => of_same rfl rfl rfl
  localsLimit _ _ := of_same rfl rfl rfl
  store index v vm hb hl := of_untouched (Vm.Untouched.ordinary.store index v vm hb hl)
  builder _ _ _ := of_same rfl rfl rfl
  map _ _ _ := of_same rfl rfl rfl
  workerFault _ _ := of_same rfl rfl rfl
  invocationFault _ _ _ := of_same rfl rfl rfl
  finished _ _ _ _ _ _ := of_same rfl rfl rfl
  returned _ _ _ _ _ := of_same rfl rfl rfl
  abandoned _ _ _ := of_same rfl rfl rfl
  frameLimit _ _ := of_same rfl rfl rfl
  pushFrame _ _ _ _ _ := of_same rfl rfl rfl
  popFrame _ _ := of_same rfl rfl rfl
  leave _ _ _ := of_same rfl rfl rfl
  reuse _ _ _ _ := of_same rfl rfl rfl
  validateReturn := validateVmReturnRestore_ends chains fun _ _ => of_same rfl rfl rfl
  openPar _ _ _ := of_same rfl rfl rfl
  addPar _ _ _ _ := of_same rfl rfl rfl
  closePar _ _ := of_same rfl rfl rfl
  reclaimed _ _ := of_same rfl rfl rfl
  entered _ _ _ := of_same rfl rfl rfl
  started {target argCount w worker} vm _ _ _ _ _ := by
    have hentered : vm.Dispatches (enterTask ⟨.pending, vm.nextTaskHandle, .void, some worker, 0, false⟩
        { vm with stack := vm.stack.take (vm.stack.length - argCount) }) := of_same rfl rfl rfl
    exact hentered.trans (note (by simp))
  created _ _ _ := of_same rfl rfl rfl
  submitted _ _ _ _ := trans (of_same rfl rfl rfl) (noteSubmission ..)
  refused _ _ _ _ := trans (of_same rfl rfl rfl) (removeHandle ..)
  unheard _ _ _ _ := trans (of_same rfl rfl rfl) (removeHandle ..)
  workload {index payloads} vm _ _ _ _ _ :=
    ⟨rfl, rfl, [.workloadAccepted vm.nextWorkerTaskGroupHandle payloads], rfl, fun target ht => by simp at ht⟩
  materialized {rt rt' slot g payload} vm _ _ _ _ _ _ :=
    trans (trans (of_same rfl rfl rfl) (noteSubmission rt' g.workerCatalogIndex vm.nextTaskHandle payload
      (setWorkerRuntime rt' (enterTask (pendingWorkerTask g.workerCatalogIndex vm.nextTaskHandle) vm)))) (of_same rfl rfl rfl)
  canceled _ _ _ := of_same rfl rfl rfl
  consumed _ _ hq hkeep := trans (trans hq (keepTombstone hkeep)) (trans (removeHandle ..) (note (by simp)))
  handled _ _ hallowed hbound := note fun target ht => by
    cases ht
    exact ⟨hallowed, hbound ▸ rfl⟩

theorem of_booked (hb : vm.Booked vm') : vm.Dispatches vm' := by
  rw [hb.same]
  exact of_same rfl rfl rfl

end Vm.Dispatches

/-! ## Confinement -/

section Confinement

variable {env : Env} {rights : UInt64} {vm v w : Vm}

theorem initVm_confined {program bindings argv profile hostClock}
    (h : initVm env program bindings argv profile hostClock = some vm) (hp : policyWithin vm.syscallPolicy rights) :
    vm.Confined rights := by
  have hf := Vm.Confined.initVm_fresh h
  exact { hf.confined with
    policy := hp
    runtime := fun rt hrt => by simp [hf.runtime] at hrt
    handlers := fun target he => by simp [hf.events] at he }

/-- A machine whose host never sets a policy beyond some rights, and all that runs for it, invoke no handler beyond these
rights; each step invokes only handlers that the machine has bound and that its policy allows; a subroutine invokes none;
and a worker of the catalog, with all that runs for it, only those that its entry requires. -/
theorem rights_confined {program bindings argv profile hostClock}
    (hmade : initVm env program bindings argv profile hostClock = some vm) (hp : policyWithin vm.syscallPolicy rights)
    (hv : Hosted env rights vm v) (hw : Works env v w) :
    (∀ target, .handlerInvoked target ∈ w.events → policyAllows rights (contractCapability target) = true) ∧
    (∀ fuel w', step env fuel w = some w' → w.Dispatches w') ∧
    (∀ t ∈ w.completedTasks, ∀ worker, t.workerContext = some worker → ∀ u, Works env worker u →
      ∀ target, .handlerInvoked target ∉ u.events) ∧
    ∀ rt, w.workerRuntime = some rt → ∀ t ∈ rt.tasks, ∀ worker,
      startedWorkerVm env rt t.workerCatalogIndex t.submissionId t.payload = some worker →
      ∃ entry, w.program.workerCatalog[t.workerCatalogIndex]? = some entry ∧ policyWithin entry.requiredMask rights ∧
        ∀ u, Works env worker u → ∀ target, .handlerInvoked target ∈ u.events →
          policyAllows entry.requiredMask (contractCapability target) = true := by
  have hc : w.Confined rights := hw.confined (hv.confined (initVm_confined hmade hp))
  refine ⟨hc.handlers, fun fuel w' hstep => ?_, fun t ht worker hworker u hu target he => ?_, fun rt hrt t ht worker hstart => ?_⟩
  · exact Vm.Dispatches.admits.stepWith .of_booked hstep
  · have hnone := hu.confined (hc.subroutines t ht worker hworker).confined
    simpa [policyAllows_none] using hnone.handlers target he
  · obtain ⟨p, hprogram, hfresh⟩ := startedWorkerVm_fresh hstart
    obtain ⟨hparent, hchartered⟩ := hc.runtime rt hrt
    obtain ⟨entry, hentry, hmask, hwithin⟩ := hchartered _ p hprogram
    refine ⟨entry, hentry, hwithin.trans hparent, fun u hu target he => ?_⟩
    exact hmask ▸ (hu.confined hfresh.confined).handlers target he

theorem Works.iterate {fuel n : Nat} (h : Trails.iterate (step env fuel) n v = some w) (hv : Works env vm v) : Works env vm w :=
  Trails.iterate_keeps (fun hstep hw => .stepped hw hstep) h hv

/-- The subroutine of a task that waits. -/
theorem errand_confined : ∃ vm, errand 1 = some vm ∧ vm.completedTasks.map (·.workerContext.isSome) = [true] ∧
    ∀ t ∈ vm.completedTasks, ∀ worker, t.workerContext = some worker → ∀ u, Works .threaded worker u →
      ∀ target, .handlerInvoked target ∉ u.events := by
  have hrun : (errand 1).map (fun vm => vm.completedTasks.map (·.workerContext.isSome)) = some [true] := by decide +kernel
  obtain ⟨vm, hvm, h⟩ := Option.map_eq_some_iff.1 hrun
  obtain ⟨vm₀, hinit, hsteps⟩ := Option.bind_eq_some_iff.1 hvm
  exact ⟨vm, hvm, h, (rights_confined hinit (.refl _) .itself (.iterate hsteps .itself)).2.2.1⟩

end Confinement

end Aivm
