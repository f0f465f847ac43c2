import Aivm.Machine.Lemmas.Runs

/-!
# Well-formed machines

The counts of a machine stay within their limits and the limits within their capacities. Call frames nest: the bases of
a frame lie above those of its caller, and its locals above the caller's. The values of parallel blocks nest in the same
way. So the machine never finds its own counts out of place.
-/

namespace Aivm

open VmM

/-- The counts, limits and bases of a machine. -/
structure MachineLayout where
  stackCount : Nat
  stackLimit : Nat
  frames : List CallFrame
  frameLimit : Nat
  localsCount : Nat
  localsLimit : Nat
  programLength : Nat
  contexts : List ParContext
  valueCount : Nat
  pairCount : Nat
  taskCount : Nat
  tombstoneCount : Nat
  groupCount : Nat
  builderCount : Nat
  mapCount : Nat

def Vm.layout (vm : Vm) : MachineLayout where
  stackCount := vm.stack.length
  stackLimit := vm.stackLimit
  frames := vm.callFrames
  frameLimit := vm.callFrameLimit
  localsCount := vm.locals.length
  localsLimit := vm.localsLimit
  programLength := instructionCount vm
  contexts := vm.parContexts
  valueCount := vm.parValues.length
  pairCount := vm.scratchPairs.length
  taskCount := vm.completedTasks.length
  tombstoneCount := vm.consumedTaskHandles.length
  groupCount := vm.workerTaskGroups.length
  builderCount := vm.nodeBuilders.length
  mapCount := vm.maps.length

/-- A frame that was entered in another one. -/
def CallFrame.Within (outer inner : CallFrame) : Prop :=
  outer.frameBase ≤ inner.frameBase ∧ outer.localsBase ≤ inner.localsBase

/-- The stack, the call frames and the locals. -/
structure MachineLayout.Framed (l : MachineLayout) : Prop where
  stack : l.stackCount ≤ l.stackLimit ∧ l.stackLimit ≤ stackCapacity
  frames : l.frames.length ≤ l.frameLimit ∧ l.frameLimit ≤ callFrameCapacity
  locals : l.localsCount ≤ l.localsLimit ∧ l.localsLimit ≤ localsCapacity
  nested : l.frames.Pairwise CallFrame.Within
  based : ∀ frame ∈ l.frames, frame.localsBase ≤ l.localsCount
  returns : ∀ frame ∈ l.frames, frame.returnInstructionPointer ≤ l.programLength

/-- The parallel blocks and the tables. -/
structure MachineLayout.Tabled (l : MachineLayout) : Prop where
  contexts : l.contexts.length ≤ parContextCapacity
  nested : l.contexts.Pairwise fun outer inner => outer.startIndex ≤ inner.startIndex
  started : ∀ context ∈ l.contexts, context.startIndex ≤ l.valueCount
  values : l.valueCount ≤ parValueCapacity
  pairs : l.pairCount ≤ scratchPairCapacity
  tasks : l.taskCount ≤ taskCapacity
  tombstones : l.tombstoneCount ≤ taskCapacity
  groups : l.groupCount ≤ taskCapacity
  builders : l.builderCount ≤ nodeBuilderCapacity
  maps : l.mapCount ≤ mapCapacity

/-- A machine whose counts, limits and bases fit together. -/
def Vm.WellFormed (vm : Vm) : Prop := vm.layout.Framed ∧ vm.layout.Tabled

/-! ## Limits -/

theorem growLimit_le {step capacity needed fuel : Nat} : ∀ {limit}, limit ≤ capacity →
    growLimit step capacity needed fuel limit ≤ capacity := by
  induction fuel with
  | zero => exact fun h => h
  | succ fuel ih =>
      intro limit h
      unfold growLimit
      split
      · refine ih ?_
        unfold arenaGrowLimit
        split <;> omega
      · exact h

theorem le_growLimit {step capacity needed fuel : Nat} : ∀ {limit}, limit ≤ capacity →
    limit ≤ growLimit step capacity needed fuel limit := by
  induction fuel with
  | zero => exact fun _ => Nat.le_refl _
  | succ fuel ih =>
      intro limit h
      unfold growLimit
      split
      · have hgrow : limit ≤ arenaGrowLimit limit step capacity ∧ arenaGrowLimit limit step capacity ≤ capacity := by
          unfold arenaGrowLimit
          split <;> omega
        exact Nat.le_trans hgrow.1 (ih hgrow.2)
      · exact Nat.le_refl _

/-- A limit that has grown still holds what it held. -/
theorem ensureLimit_fits {step capacity needed limit count : Nat} (h : count ≤ limit ∧ limit ≤ capacity) :
    count ≤ ensureLimit step capacity needed limit ∧ ensureLimit step capacity needed limit ≤ capacity :=
  ⟨Nat.le_trans h.1 (le_growLimit h.2), growLimit_le h.2⟩

/-! ## Frames and locals -/

theorem length_writeLocal {index : Nat} {v : Value} {vm : Vm} :
    (writeLocal index v vm).locals.length = max vm.locals.length (index + 1) := by
  unfold writeLocal
  split
  · rw [List.length_set]
    omega
  · simp only [List.length_append, staleSlots, List.length_map, List.length_range, List.length_singleton]
    omega

theorem length_putSlot {α : Type} {capacity slot : Nat} {a : α} {slots : List α} (h : slots.length ≤ capacity) :
    (putSlot capacity slot a slots).length ≤ capacity := by
  unfold putSlot
  split
  · rwa [List.length_set]
  split
  · rw [List.length_append, List.length_singleton]
    omega
  · exact h

theorem mem_of_getLast? {α : Type} {xs : List α} {a : α} (h : xs.getLast? = some a) : a ∈ xs := by
  obtain ⟨ys, rfl⟩ := List.getLast?_eq_some_iff.1 h
  simp

/-- The last entry of a nested list lies above all others. -/
theorem pairwise_last {α : Type} {R : α → α → Prop} {xs : List α} {a : α} (h : xs.Pairwise R) (ha : xs.getLast? = some a) :
    ∀ x ∈ xs.dropLast, R x a := by
  obtain ⟨ys, rfl⟩ := List.getLast?_eq_some_iff.1 ha
  simp only [List.dropLast_concat]
  exact fun x hx => (List.pairwise_append.1 h).2.2 x hx a (List.mem_singleton_self a)

theorem CallFrame.Within.refl (frame : CallFrame) : frame.Within frame := ⟨Nat.le_refl _, Nat.le_refl _⟩

namespace MachineLayout

variable {l : MachineLayout}

/-- Every frame lies below the last one. -/
theorem Framed.within_last (h : l.Framed) {last : CallFrame} (hlast : l.frames.getLast? = some last) {frame : CallFrame}
    (hm : frame ∈ l.frames) : CallFrame.Within frame last := by
  by_cases he : frame ∈ l.frames.dropLast
  · exact pairwise_last h.nested hlast frame he
  · rw [← List.dropLast_append_getLast? last hlast] at hm
    rcases List.mem_append.1 hm with hm | hm
    · exact absurd hm he
    · cases List.mem_singleton.1 hm
      exact .refl _

theorem Framed.push (h : l.Framed) {frame : CallFrame} (hroom : l.frames.length < l.frameLimit)
    (hin : ∀ outer ∈ l.frames.getLast?, outer.frameBase ≤ frame.frameBase) (hlocals : frame.localsBase = l.localsCount)
    (hret : frame.returnInstructionPointer ≤ l.programLength) :
    ({ l with frames := l.frames ++ [frame] } : MachineLayout).Framed where
  stack := h.stack
  frames := by
    refine ⟨?_, h.frames.2⟩
    simpa using hroom
  locals := h.locals
  nested := by
    refine List.pairwise_append.2 ⟨h.nested, List.pairwise_singleton _ _, fun outer hm inner hi => ?_⟩
    cases List.mem_singleton.1 hi
    refine ⟨?_, hlocals ▸ h.based outer hm⟩
    -- Every frame lies below the last one, and that below the new one.
    obtain ⟨last, hlast⟩ := Option.isSome_iff_exists.1 (List.getLast?_isSome.2 (List.ne_nil_of_mem hm))
    exact Nat.le_trans (h.within_last hlast hm).1 (hin last hlast)
  based := by
    intro f hf
    rcases List.mem_append.1 hf with hf | hf
    · exact h.based f hf
    · cases List.mem_singleton.1 hf
      exact Nat.le_of_eq hlocals
  returns := by
    intro f hf
    rcases List.mem_append.1 hf with hf | hf
    · exact h.returns f hf
    · cases List.mem_singleton.1 hf
      exact hret

/-- A frame is left; its caller's locals are still there. -/
theorem Framed.pop (h : l.Framed) {frame : CallFrame} (stackCount localsCount : Nat)
    (hlast : l.frames.getLast? = some frame) (hs : stackCount ≤ l.stackCount) (hl : localsCount ≤ l.localsCount)
    (hbase : frame.localsBase ≤ localsCount) :
    ({ l with frames := l.frames.dropLast, stackCount, localsCount } : MachineLayout).Framed where
  stack := ⟨Nat.le_trans hs h.stack.1, h.stack.2⟩
  frames := by
    refine ⟨?_, h.frames.2⟩
    have hf := h.frames.1
    simp only [List.length_dropLast]
    omega
  locals := ⟨Nat.le_trans hl h.locals.1, h.locals.2⟩
  nested := h.nested.sublist (List.dropLast_sublist _)
  based f hf := Nat.le_trans (pairwise_last h.nested hlast f hf).2 hbase
  returns f hf := h.returns f (List.mem_of_mem_dropLast hf)

/-- The stack and the locals change within their limits, and the locals of no frame are cut. -/
theorem Framed.resize (h : l.Framed) (stackCount localsCount : Nat) (hs : stackCount ≤ l.stackLimit)
    (hl : localsCount ≤ l.localsLimit) (hbase : ∀ frame ∈ l.frames, frame.localsBase ≤ localsCount) :
    ({ l with stackCount, localsCount } : MachineLayout).Framed :=
  { h with
    stack := ⟨hs, h.stack.2⟩
    locals := ⟨hl, h.locals.2⟩
    based := hbase }

/-- A block is closed with all that was forked in it. -/
theorem Tabled.close (h : l.Tabled) {context : ParContext} (hlast : l.contexts.getLast? = some context) :
    ({ l with contexts := l.contexts.dropLast, valueCount := context.startIndex } : MachineLayout).Tabled :=
  { h with
    contexts := by
      have hc := h.contexts
      simp only [List.length_dropLast]
      omega
    nested := h.nested.sublist (List.dropLast_sublist _)
    started := pairwise_last h.nested hlast
    values := Nat.le_trans (h.started context (mem_of_getLast? hlast)) h.values }

theorem Tabled.open (h : l.Tabled) {expectedCount : Nat} (hroom : l.contexts.length < parContextCapacity) :
    ({ l with contexts := l.contexts ++ [⟨expectedCount, l.valueCount⟩] } : MachineLayout).Tabled :=
  { h with
    contexts := by simpa using hroom
    nested := by
      refine List.pairwise_append.2 ⟨h.nested, List.pairwise_singleton _ _, fun outer hm inner hi => ?_⟩
      cases List.mem_singleton.1 hi
      exact h.started outer hm
    started := by
      intro context hc
      rcases List.mem_append.1 hc with hc | hc
      · exact h.started context hc
      · cases List.mem_singleton.1 hc
        exact Nat.le_refl _ }

end MachineLayout

/-! ## What each change does to the layout -/

namespace Vm.WellFormed

variable {env : Env} {nested : Vm → Option Vm} {vm vm' : Vm}

theorem of_layout (h : vm.WellFormed) (hl : vm'.layout = vm.layout) : vm'.WellFormed := by
  unfold Vm.WellFormed at h ⊢
  rwa [hl]

theorem of_quiet (h : vm.WellFormed) (hq : vm.Quiet vm') : vm'.WellFormed := by
  have hl : vm'.layout = { vm.layout with pairCount := vm'.scratchPairs.length } := by
    have hout := congrArg Vm.layout hq.outside
    have hs : ∀ vm : Vm, vm.layout = { vm.outside.layout with pairCount := vm.scratchPairs.length } := by
      intro vm
      simp [Vm.layout, Vm.outside, instructionCount]
    rw [hs vm', hs vm, hout]
  unfold Vm.WellFormed
  rw [hl]
  exact ⟨{ h.1 with }, { h.2 with pairs := Nat.le_trans hq.pairs h.2.pairs }⟩

theorem of_tables (h : vm.WellFormed) (ht : vm'.completedTasks.length ≤ taskCapacity)
    (hc : vm'.consumedTaskHandles.length ≤ taskCapacity) (hg : vm'.workerTaskGroups.length ≤ taskCapacity)
    (hb : vm'.nodeBuilders.length ≤ nodeBuilderCapacity) (hm : vm'.maps.length ≤ mapCapacity)
    (hl : vm'.layout = { vm.layout with
      taskCount := vm'.completedTasks.length
      tombstoneCount := vm'.consumedTaskHandles.length
      groupCount := vm'.workerTaskGroups.length
      builderCount := vm'.nodeBuilders.length
      mapCount := vm'.maps.length }) : vm'.WellFormed := by
  unfold Vm.WellFormed
  rw [hl]
  exact ⟨{ h.1 with }, { h.2 with tasks := ht, tombstones := hc, groups := hg, builders := hb, maps := hm }⟩

/-- A table of tasks that is no longer than it may be. -/
theorem of_tasks (h : vm.WellFormed) (ht : vm'.completedTasks.length ≤ taskCapacity)
    (hl : vm'.layout = { vm.layout with taskCount := vm'.completedTasks.length }) : vm'.WellFormed := by
  unfold Vm.WellFormed
  rw [hl]
  exact ⟨{ h.1 with }, { h.2 with tasks := ht }⟩

theorem enter (h : vm.WellFormed) (hroom : vm.HasRoom) (t : CompletedTask Vm) : (enterTask t vm).WellFormed := by
  refine h.of_tasks ?_ rfl
  simpa [enterTask] using hroom.2

theorem remove (h : vm.WellFormed) (slot : Nat) : (removeTaskSlot slot vm).WellFormed := by
  refine h.of_tasks ?_ rfl
  exact Nat.le_trans (List.length_eraseIdx_le _ _) h.2.tasks

theorem removeHandle (h : vm.WellFormed) (handle : Nat) : (removeCompletedTaskSlot handle vm).WellFormed := by
  unfold removeCompletedTaskSlot
  split
  · exact h.remove _
  · exact h

theorem note (env : Env) (h : vm.WellFormed) (rt : WorkerRuntime) (index id : Nat) (payload : List Byte) :
    (noteSubmission env rt index id payload vm).WellFormed := by
  unfold noteSubmission
  split
  · exact h.of_layout rfl
  · exact h

/-- What is put on the stack or taken from it. -/
theorem of_stack (h : vm.WellFormed) {stack : List Value} (hs : stack.length ≤ vm.stackLimit) :
    ({ vm with stack } : Vm).WellFormed :=
  ⟨h.1.resize stack.length vm.locals.length hs h.1.locals.1 h.1.based, { h.2 with }⟩

theorem dropLocals_length (count : Nat) (vm : Vm) : (dropLocals count vm).locals.length = min count vm.locals.length :=
  List.length_take

theorem keepTombstone {handle : Nat} {u} (hv : vm.WellFormed) (h : keepTombstone handle vm = .ok u vm') : vm'.WellFormed := by
  obtain rfl | rfl | ⟨-, hroom, rfl⟩ := keepTombstone_ok h
  · exact hv
  · exact hv.of_layout rfl
  · refine hv.of_tables hv.2.tasks ?_ hv.2.groups hv.2.builders hv.2.maps rfl
    simpa [countSkipped] using hroom

/-- A change to the tasks in place. -/
theorem modify (h : vm.WellFormed) (slot : Nat) (f : CompletedTask Vm → CompletedTask Vm) :
    (modifyTask slot f vm).WellFormed := by
  refine h.of_layout ?_
  simp [Vm.layout, modifyTask, instructionCount]

theorem of_runtime (rt : WorkerRuntime) (h : vm.WellFormed) : (setWorkerRuntime rt vm).WellFormed := h.of_layout rfl

theorem admits : Admits env nested (Keeping Vm.WellFormed) where
  chains := Keeping.chains _
  quiet hq h := h.of_quiet hq
  fault _ _ h := h.of_layout rfl
  pair p vm hroom h := by
    refine ⟨{ h.1 with }, { h.2 with pairs := ?_ }⟩
    simpa [Vm.layout] using hroom
  stackLimit needed vm h := ⟨{ h.1 with stack := ensureLimit_fits h.1.stack }, { h.2 with }⟩
  push v vm hroom h := by
    refine h.of_stack ?_
    simpa using hroom
  pop vm h := by
    refine h.of_stack ?_
    have hs : vm.stack.length ≤ vm.stackLimit := h.1.stack.1
    rw [List.length_dropLast]
    omega
  validate := validateCallLocalState_ends (Keeping.chains _) fun _ _ h => h.of_layout rfl
  localsLimit needed vm h := ⟨{ h.1 with locals := ensureLimit_fits h.1.locals }, { h.2 with }⟩
  store index v vm _ hlimit h := by
    have hlen : (writeLocal index v vm).locals.length = max vm.locals.length (index + 1) := length_writeLocal
    have hl : (writeLocal index v vm).layout = { vm.layout with localsCount := max vm.locals.length (index + 1) } := by
      rw [← hlen]
      unfold writeLocal
      split <;> rfl
    have hfits : vm.locals.length ≤ vm.localsLimit := h.1.locals.1
    unfold Vm.WellFormed
    rw [hl]
    refine ⟨h.1.resize vm.stack.length (max vm.locals.length (index + 1)) h.1.stack.1 ?_ fun frame hf => ?_, { h.2 with }⟩
    · exact Nat.max_le.2 ⟨hfits, hlimit⟩
    · exact Nat.le_trans (h.1.based frame hf) (Nat.le_max_left _ _)
  builder slot b vm h := h.of_tables h.2.tasks h.2.tombstones h.2.groups (length_putSlot h.2.builders) h.2.maps rfl
  map slot m vm h := h.of_tables h.2.tasks h.2.tombstones h.2.groups h.2.builders (length_putSlot h.2.maps) rfl
  workerFault _ _ h := h.of_layout rfl
  invocationFault _ _ _ h := h.of_layout rfl
  finished _ vm _ _ _ _ h := (h.modify _ _).of_layout rfl
  returned _ vm _ _ _ h := h.modify _ _
  abandoned _ _ _ h := h.of_layout rfl
  frameLimit needed vm h := ⟨{ h.1 with frames := ensureLimit_fits h.1.frames }, { h.2 with }⟩
  pushFrame vm hbase hroom htarget hin h := ⟨h.1.push hroom (fun outer ho => (hin outer ho).1) rfl htarget, { h.2 with }⟩
  popFrame vm hne h := by
    obtain ⟨frame, hlast⟩ := Option.isSome_iff_exists.1 (List.getLast?_isSome.2 hne)
    exact ⟨h.1.pop _ _ hlast (Nat.le_refl _) (Nat.le_refl _) (h.1.based frame (mem_of_getLast? hlast)), { h.2 with }⟩
  leave {frame} vm hlast _ h := by
    have hlocals : frame.localsBase ≤ vm.locals.length := h.1.based _ (mem_of_getLast? hlast)
    have hlen : (vm.locals.take frame.localsBase).length = frame.localsBase := List.length_take_of_le hlocals
    refine ⟨h.1.pop (vm.stack.take frame.frameBase).length (vm.locals.take frame.localsBase).length hlast ?_ ?_
      (Nat.le_of_eq hlen.symm), { h.2 with }⟩
    · exact List.length_take_le' _ _
    · exact List.length_take_le' _ _
  reuse {frame argCount} vm hlast hargs hbase h := by
    have hlocals : frame.localsBase ≤ vm.locals.length := h.1.based _ (mem_of_getLast? hlast)
    have hs : vm.stack.length ≤ vm.stackLimit := h.1.stack.1
    have hlen : (vm.locals.take frame.localsBase).length = frame.localsBase := List.length_take_of_le hlocals
    refine ⟨h.1.resize (vm.stack.take frame.frameBase ++ vm.stack.drop (vm.stack.length - argCount)).length
      (vm.locals.take frame.localsBase).length ?_ ?_ fun outer ho => ?_, { h.2 with }⟩
    · simp only [List.length_append, List.length_take, List.length_drop]
      change _ ≤ vm.stackLimit
      omega
    · exact Nat.le_trans (List.length_take_le' _ _) h.1.locals.1
    · rw [hlen]
      exact (h.1.within_last hlast ho).2
  validateReturn := validateVmReturnRestore_ends (Keeping.chains _) fun _ _ h => h.of_layout rfl
  openPar _ vm hroom h := ⟨{ h.1 with }, h.2.open hroom⟩
  addPar v vm _ hroom h := by
    refine ⟨{ h.1 with }, { h.2 with started := fun context hc => ?_, values := ?_ }⟩
    · have hs := h.2.started context hc
      exact Nat.le_trans hs (by simp [Vm.layout])
    · simpa [Vm.layout] using hroom
  closePar {context} vm hlast h := by
    have hle : context.startIndex ≤ vm.parValues.length := h.2.started _ (mem_of_getLast? hlast)
    have hlen : (vm.parValues.take context.startIndex).length = context.startIndex := List.length_take_of_le hle
    refine ⟨{ h.1 with }, ?_⟩
    have hclose := h.2.close hlast
    rw [← hlen] at hclose
    exact hclose
  reclaimed vm _ h := h.of_layout rfl |>.remove _
  entered _ vm hroom h := h.enter hroom _
  started {target argCount w worker} vm hroom _ _ _ _ h := by
    have hstack : ({ vm with stack := vm.stack.take (vm.stack.length - argCount) } : Vm).WellFormed :=
      h.of_stack (Nat.le_trans (List.length_take_le' _ _) h.1.stack.1)
    exact (hstack.enter hroom _).of_layout rfl
  created vm _ _ h := h.of_layout rfl
  submitted {rt rt' index payload} vm hroom _ _ h :=
    (of_runtime rt' (h.enter hroom _)).note _ _ _ _ _
  refused {rt rt' index payload status} vm hroom _ _ h :=
    (of_runtime rt' (h.enter hroom _)).removeHandle _
  unheard _ vm hroom _ h := (h.enter hroom _).removeHandle _
  workload vm _ _ _ hroom _ h := by
    refine h.of_tables h.2.tasks h.2.tombstones ?_ h.2.builders h.2.maps rfl
    simpa [enterWorkload, noteEvent] using hroom
  materialized {rt rt' slot g payload} vm hroom _ _ _ _ _ h := by
    have hentered := h.enter hroom (pendingWorkerTask g.workerCatalogIndex vm.nextTaskHandle)
    have hset : (setWorkerRuntime rt' (enterTask (pendingWorkerTask g.workerCatalogIndex vm.nextTaskHandle) vm)).WellFormed :=
      hentered.of_layout rfl
    have hnoted := hset.note env rt' g.workerCatalogIndex vm.nextTaskHandle payload
    refine hnoted.of_tables hnoted.2.tasks hnoted.2.tombstones ?_ hnoted.2.builders hnoted.2.maps rfl
    rw [List.length_set]
    exact h.2.groups
  canceled _ vm _ h := h.of_layout rfl
  consumed vm _ hq hkeep h := (((hq h).keepTombstone hkeep).removeHandle _).of_layout rfl
  handled vm _ _ _ h := h.of_layout rfl

/-- A reset empties a machine but for the tombstones. -/
theorem of_reset (h : vm.consumedTaskHandles.length ≤ taskCapacity) : (resetFields vm).WellFormed := by
  refine ⟨⟨?_, ?_, ?_, .nil, ?_, ?_⟩, ⟨?_, .nil, ?_, ?_, ?_, ?_, h, ?_, ?_, ?_⟩⟩ <;>
    simp [Vm.layout, resetFields, stackInitialCapacity, stackCapacity, callFrameInitialCapacity, callFrameCapacity,
      localsInitialCapacity, localsCapacity]

theorem survives : Survives Vm.WellFormed where
  fresh _ _ _ _ _ := of_reset (Nat.zero_le _)
  reset h := of_reset h.2.tombstones
  profiled _ h := h.of_layout rfl
  configured _ _ _ _ h := h.of_layout rfl
  booked hb h := by
    rw [hb.same]
    exact h.of_layout rfl

end Vm.WellFormed

/-- Every machine in use is well formed. -/
theorem Arises.wellFormed {env : Env} {vm : Vm} (h : Arises env vm) : vm.WellFormed :=
  Admits.arises (fun _ => Vm.WellFormed.admits) Vm.WellFormed.survives h

/-- In the call of the program. -/
theorem errand_wellFormed : ∃ vm, errand 6 = some vm ∧ (vm.callFrames.length = 1 ∧ vm.locals.length = 1) ∧ vm.WellFormed := by
  have hrun : (errand 6).map (fun vm => (vm.callFrames.length, vm.locals.length)) = some (1, 1) := by decide +kernel
  obtain ⟨vm, hvm, h⟩ := Option.map_eq_some_iff.1 hrun
  exact ⟨vm, hvm, Prod.mk.inj h, Arises.wellFormed (errand_arises hvm)⟩

/-! ## What is never reported -/

/-- The error text is no report of the machine about its own counts. -/
def Vm.Silent (vm : Vm) : Prop := ∀ text ∈ machineDiagnostics, ¬ text.toList <+: vm.errorDetail.toList

/-- A well-formed machine that does not report on its counts. -/
def Vm.Sound (vm : Vm) : Prop := vm.WellFormed ∧ vm.Silent

namespace Vm.Sound

variable {env : Env} {nested : Vm → Option Vm} {vm vm' : Vm}

theorem fault (h : vm.Sound) {f : Fault} (hf : f.Regular) : (setVmError f vm).Sound := ⟨h.1.of_layout rfl, hf.2⟩

/-- A text that starts with another word is no report. -/
theorem silent_of_head {text : String} {c : Char} (hc : text.toList.head? = some c) (hne : c ≠ 'V') :
    ∀ diagnostic ∈ machineDiagnostics, ¬ diagnostic.toList <+: text.toList := by
  have hregular : Fault.Regular ⟨.invalidProgram, text⟩ := .of_head (by simp) hc hne
  exact hregular.2

theorem prefix_append {cs : List Char} {a b : String} (h : cs <+: a.toList) : cs <+: (a ++ b).toList := by
  rw [String.toList_append]
  exact h.trans (List.prefix_append _ _)

theorem frameInvariantFailed_starts (opName : String) (frame : CallFrame) (vm : Vm) :
    "VM frame".toList <+: (frameInvariantFailed opName frame vm).detail.toList := by
  unfold frameInvariantFailed
  repeat refine prefix_append ?_
  decide

theorem withinLimits (h : vm.WellFormed) : withinLimits vm := ⟨h.1.stack.1, h.1.frames.1, h.1.locals.1⟩

/-- A check of a well-formed machine finds at most the base of the stack out of place. -/
theorem validate_ends (opName : String) (vm : Vm) : Ends (Keeping Vm.Sound) (validateCallLocalState opName) vm := by
  intro vm' h hv
  unfold validateCallLocalState at h
  split at h
  · rename_i hout
    exact absurd (withinLimits hv.1) hout
  split at h
  · rename_i frame hlast
    split at h
    · simp only [Outcome.state?, Option.some.injEq] at h
      subst h
      refine ⟨hv.1.of_layout rfl, fun text hm hp => ?_⟩
      -- Both texts start the report, but they differ behind the first word.
      have hboth := List.prefix_or_prefix_of_prefix hp (frameInvariantFailed_starts opName frame vm)
      simp only [machineDiagnostics, List.mem_cons, List.not_mem_nil, or_false] at hm
      obtain rfl | rfl := hm
      · exact absurd hboth (by decide)
      · exact absurd hboth (by decide)
    · rename_i hfits
      split at h
      · rename_i hbase
        exact absurd hbase (Nat.not_lt.2 (not_not.1 hfits).2)
      · simp only [Outcome.state?, Option.some.injEq] at h
        exact h ▸ hv
  · simp only [Outcome.state?, Option.some.injEq] at h
    exact h ▸ hv

theorem validateReturn_ends (frame : CallFrame) (count : Nat) (vm : Vm) :
    Ends (Keeping Vm.Sound) (validateVmReturnRestore frame count) vm := by
  intro vm' h hv
  unfold validateVmReturnRestore at h
  split at h
  · rename_i hout
    exact absurd (withinLimits hv.1) hout
  split at h
  · simp only [Outcome.state?, Option.some.injEq] at h
    subst h
    exact ⟨hv.1.of_layout rfl, silent_of_head (c := 'R') (by simp [setVmError, toString]) (by simp)⟩
  · simp only [Outcome.state?, Option.some.injEq] at h
    exact h ▸ hv

/-- A worker task fails with the error of its own machine, or with one of its transport. -/
theorem runSubmission_failed {rt : WorkerRuntime} {t : WorkerRuntimeTask} {detail : String}
    (hrun : ∀ {p worker vm}, workerVm env p rt t.submissionId t.payload = some worker → nested worker = some vm → vm.Silent)
    (h : runSubmission env nested rt t = some (.failed detail)) :
    ∀ text ∈ machineDiagnostics, ¬ text.toList <+: detail.toList := by
  obtain ⟨p, -, h⟩ := Option.bind_eq_some_iff.1 h
  unfold workerInvocationRun at h
  split at h
  · cases h
    exact silent_of_head (c := 'W') (by simp) (by simp)
  obtain ⟨worker, hworker, h⟩ := Option.bind_eq_some_iff.1 h
  obtain ⟨vm, hnested, h⟩ := Option.bind_eq_some_iff.1 h
  unfold invocationResult at h
  split at h
  · cases h
    intro text hm hp
    refine hrun hworker hnested text hm (hp.trans ?_)
    simpa [clipInvocationDetail] using List.take_prefix 255 vm.errorDetail.toList
  split at h
  · split at h
    · cases h
    split at h
    · cases h
      exact silent_of_head (c := 'W') (by simp) (by simp)
    · obtain ⟨_, _, h⟩ := Option.map_eq_some_iff.1 h
      cases h
  · cases h

theorem keepTombstone_detail {handle : Nat} {u} (h : keepTombstone handle vm = .ok u vm') : vm'.errorDetail = vm.errorDetail := by
  obtain rfl | rfl | ⟨-, -, rfl⟩ := keepTombstone_ok h <;> rfl

theorem removeHandle_detail (handle : Nat) (vm : Vm) : (removeCompletedTaskSlot handle vm).errorDetail = vm.errorDetail := by
  unfold removeCompletedTaskSlot
  split <;> rfl

theorem note_detail (rt : WorkerRuntime) (index id : Nat) (payload : List Byte) (vm : Vm) :
    (noteSubmission env rt index id payload vm).errorDetail = vm.errorDetail := by
  unfold noteSubmission
  split <;> rfl

theorem of_detail (h : vm.Sound) (hw : Keeping Vm.WellFormed vm vm') (hd : vm'.errorDetail = vm.errorDetail) : vm'.Sound := by
  refine ⟨hw h.1, ?_⟩
  unfold Vm.Silent
  rw [hd]
  exact h.2

open Vm.WellFormed in
theorem admits (hwf : Admits env nested (Keeping Vm.WellFormed))
    (hinvocation : ∀ {rt t detail} {vm : Vm}, runSubmission env nested rt t = some (.failed detail) →
      vm.workerRuntime = some rt → ∀ text ∈ machineDiagnostics, ¬ text.toList <+: detail.toList) :
    Admits env nested (Keeping Vm.Sound) where
  chains := Keeping.chains _
  quiet {vm vm'} hq h := by
    have hd := congrArg Vm.errorDetail hq.outside
    exact h.of_detail (fun hw => hw.of_quiet hq) hd
  fault _ hf h := h.fault hf
  pair p vm hroom h := h.of_detail (hwf.pair p vm hroom) rfl
  stackLimit needed vm h := h.of_detail (hwf.stackLimit needed vm) rfl
  push v vm hroom h := h.of_detail (hwf.push v vm hroom) rfl
  pop vm h := h.of_detail (hwf.pop vm) rfl
  validate := validate_ends
  localsLimit needed vm h := h.of_detail (hwf.localsLimit needed vm) rfl
  store index v vm hb hl h := by
    refine h.of_detail (hwf.store index v vm hb hl) ?_
    unfold writeLocal
    split <;> rfl
  builder slot b vm h := h.of_detail (hwf.builder slot b vm) rfl
  map slot m vm h := h.of_detail (hwf.map slot m vm) rfl
  workerFault f vm h := ⟨h.1.of_layout rfl, silent_of_head (c := 'A') (by simp [setVmError, workerFault, clip]) (by simp)⟩
  invocationFault vm hrt hrun h := ⟨h.1.of_layout rfl, hinvocation hrun hrt⟩
  finished _ vm ht hp hw hs h := h.of_detail (hwf.finished _ vm ht hp hw hs) rfl
  returned _ vm ht hp hw h := h.of_detail (hwf.returned _ vm ht hp hw) rfl
  abandoned handle vm he h := h.of_detail (hwf.abandoned handle vm he) rfl
  frameLimit needed vm h := h.of_detail (hwf.frameLimit needed vm) rfl
  pushFrame vm hb hr ht hf h := h.of_detail (hwf.pushFrame vm hb hr ht hf) rfl
  popFrame vm hne h := h.of_detail (hwf.popFrame vm hne) rfl
  leave vm hlast hfits h := h.of_detail (hwf.leave vm hlast hfits) rfl
  reuse vm hlast ha hb h := h.of_detail (hwf.reuse vm hlast ha hb) rfl
  validateReturn := validateReturn_ends
  openPar n vm hroom h := h.of_detail (hwf.openPar n vm hroom) rfl
  addPar v vm hne hroom h := h.of_detail (hwf.addPar v vm hne hroom) rfl
  closePar vm hlast h := h.of_detail (hwf.closePar vm hlast) rfl
  reclaimed vm hs h := h.of_detail (hwf.reclaimed vm hs) rfl
  entered r vm hroom h := h.of_detail (hwf.entered r vm hroom) rfl
  started vm hroom ht ha hw he h := h.of_detail (hwf.started vm hroom ht ha hw he) rfl
  created vm hn hc h := h.of_detail (hwf.created vm hn hc) rfl
  submitted vm hroom hrt hs h := h.of_detail (hwf.submitted vm hroom hrt hs) (note_detail ..)
  refused vm hroom hrt hs h := h.of_detail (hwf.refused vm hroom hrt hs) (removeHandle_detail ..)
  unheard i vm hroom hrt h := h.of_detail (hwf.unheard i vm hroom hrt) (removeHandle_detail ..)
  workload vm hne ht hb hg hh h := h.of_detail (hwf.workload vm hne ht hb hg hh) rfl
  materialized vm hroom hrt hg hp ht hs h :=
    h.of_detail (hwf.materialized vm hroom hrt hg hp ht hs) (note_detail ..)
  canceled id vm hrt h := h.of_detail (hwf.canceled id vm hrt) rfl
  consumed vm hm hq hkeep h := by
    have h₁ := hq h
    refine ⟨((h₁.1.keepTombstone hkeep).removeHandle _).of_layout rfl, ?_⟩
    unfold Vm.Silent
    rw [show (noteEvent _ _).errorDetail = _ from removeHandle_detail _ _, keepTombstone_detail hkeep]
    exact h₁.2
  handled vm hc hp hf h := h.of_detail (hwf.handled vm hc hp hf) rfl

theorem survives : Survives Vm.Sound where
  fresh program bindings argv profile hostClock :=
    ⟨Vm.WellFormed.survives.fresh program bindings argv profile hostClock, by simp [Vm.Silent, machineDiagnostics, resetFields]⟩
  reset h := ⟨Vm.WellFormed.survives.reset h.1, by simp [Vm.Silent, machineDiagnostics, resetFields]⟩
  profiled profile h := ⟨Vm.WellFormed.survives.profiled profile h.1, h.2⟩
  configured policy bindings argv clock h := ⟨Vm.WellFormed.survives.configured policy bindings argv clock h.1, h.2⟩
  booked hb h := by
    refine ⟨Vm.WellFormed.survives.booked hb h.1, ?_⟩
    unfold Vm.Silent
    rcases hb.detail with hd | hd
    · rw [hd]
      exact h.2
    · rw [hd]
      simp [machineDiagnostics]

/-- A machine whose workers are sound is kept sound. -/
theorem admits_of_nested (hnested : ∀ {vm vm'}, nested vm = some vm' → vm.Sound → vm'.Sound) :
    Admits env nested (Keeping Vm.Sound) := by
  have h₀ : Admits env (fun _ => none) (Keeping Vm.Sound) :=
    admits Vm.WellFormed.admits fun hrun _ => runSubmission_failed (fun _ h => by cases h) hrun
  exact admits Vm.WellFormed.admits fun hrun _ =>
    runSubmission_failed (fun hworker hrun => (hnested hrun (h₀.workerVm survives hworker)).2) hrun

end Vm.Sound

/-- No machine in use reports that its counts exceed their limits, or that its locals end below a frame. -/
theorem Arises.silent {env : Env} {vm : Vm} (h : Arises env vm) :
    ∀ text ∈ machineDiagnostics, ¬ text.toList <+: vm.errorDetail.toList :=
  (Admits.arises Vm.Sound.admits_of_nested Vm.Sound.survives h).2

/-- At the end of the program. -/
theorem errand_silent : ∃ vm, errand 10 = some vm ∧ (vm.status = .error ∧ vm.errorDetail = "TASK_CONSUMED") ∧
    ∀ text ∈ machineDiagnostics, ¬ text.toList <+: vm.errorDetail.toList := by
  have hrun : (errand 10).map (fun vm => (vm.status, vm.errorDetail)) = some (.error, "TASK_CONSUMED") := by decide +kernel
  obtain ⟨vm, hvm, h⟩ := Option.map_eq_some_iff.1 hrun
  exact ⟨vm, hvm, Prod.mk.inj h, Arises.silent (errand_arises hvm)⟩

end Aivm
