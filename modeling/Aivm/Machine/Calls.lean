import Aivm.Machine.InstructionPointer
import Aivm.Machine.WellFormed

/-!
# Calls

A function leaves the frames and the locals of its caller alone, whatever it does, its own calls and tail calls included.
When it returns, the machine stands behind the call, with the locals of the caller as they were and at most one value in
the place of the arguments.
-/

namespace Aivm

open VmM

/-- A frame is in use, over the frames of its callers and the locals that these hold. -/
structure FrameHeld (outer : List CallFrame) (frame : CallFrame) (held : List Value) (frames : List CallFrame)
    (locals : List Value) : Prop where
  frames : ∃ inner, frames = outer ++ frame :: inner
  locals : (locals.map Value.shape).take frame.localsBase = held

/-- A well-formed machine in a function that runs in a frame, or in one that this function has called. -/
def Vm.InCall (outer : List CallFrame) (frame : CallFrame) (held : List Value) (vm : Vm) : Prop :=
  vm.WellFormed ∧ FrameHeld outer frame held vm.callFrames vm.locals

/-- The frame has been left. -/
structure Vm.Returned (outer : List CallFrame) (frame : CallFrame) (held : List Value) (vm : Vm) : Prop where
  frames : vm.callFrames = outer
  locals : vm.locals.map Value.shape = held
  pointer : vm.instructionPointer = frame.returnInstructionPointer
  stack : vm.stack.length = frame.frameBase ∨ vm.stack.length = frame.frameBase + 1

theorem stackPush_eq {v : Value} {vm vm' : Vm} {u} (h : stackPush v vm = .ok u vm') :
    vm' = { ensureStackCapacity (vm.stack.length + 1) vm with stack := vm.stack ++ [v] } := by
  unfold stackPush at h
  by_cases hroom : vm.stack.length + 1 ≤ (ensureStackCapacity (vm.stack.length + 1) vm).stackLimit
  · simp only [hroom, if_true, Outcome.ok.injEq] at h
    exact h.2.symm
  · simp [hroom] at h

namespace Vm.InCall

variable {env : Env} {nested : Vm → Option Vm} {outer : List CallFrame} {frame : CallFrame} {held : List Value} {vm vm' : Vm}

theorem change (h : vm.InCall outer frame held) (hk : Keeping Vm.WellFormed vm vm')
    (hc : FrameHeld outer frame held vm'.callFrames vm'.locals) : vm'.InCall outer frame held := ⟨hk h.1, hc⟩

theorem mem (h : vm.InCall outer frame held) : frame ∈ vm.callFrames := by
  obtain ⟨inner, hframes⟩ := h.2.frames
  rw [hframes]
  exact List.mem_append_right _ (List.mem_cons_self ..)

/-- The locals of the running function lie above those that are held. -/
theorem base_le (h : vm.InCall outer frame held) {last : CallFrame} (hlast : vm.callFrames.getLast? = some last) :
    frame.localsBase ≤ last.localsBase := (h.1.1.within_last hlast h.mem).2

theorem base_le_length (h : vm.InCall outer frame held) : frame.localsBase ≤ vm.locals.length := h.1.1.based frame h.mem

/-- Locals above those that are held may be written. -/
theorem writeLocal (h : vm.InCall outer frame held) {index : Nat} (hle : localsBase vm ≤ index) (v : Value) :
    FrameHeld outer frame held (writeLocal index v vm).callFrames (writeLocal index v vm).locals := by
  have hbase : frame.localsBase ≤ index := by
    obtain ⟨last, hlast⟩ := Option.isSome_iff_exists.1 (List.getLast?_isSome.2 (List.ne_nil_of_mem h.mem))
    have hlocals : localsBase vm = last.localsBase := by
      unfold localsBase
      rw [hlast]
    exact Nat.le_trans (h.base_le hlast) (hlocals ▸ hle)
  have hlength := h.base_le_length
  unfold Aivm.writeLocal
  split
  · refine ⟨h.2.frames, ?_⟩
    rw [← h.2.locals, List.map_set, List.take_set_of_le hbase]
  · refine ⟨h.2.frames, ?_⟩
    rw [← h.2.locals, List.append_assoc, List.map_append, List.take_append_of_le_length (by simpa using hlength)]

/-- Locals above those that are held may be dropped. -/
theorem dropLocals (h : vm.InCall outer frame held) {count : Nat} (hle : frame.localsBase ≤ count) :
    ((vm.locals.take count).map Value.shape).take frame.localsBase = held := by
  rw [List.map_take, List.take_take, Nat.min_eq_left hle]
  exact h.2.locals

theorem removeHandle (vm : Vm) (h : FrameHeld outer frame held vm.callFrames vm.locals) (handle : Nat) :
    FrameHeld outer frame held (removeCompletedTaskSlot handle vm).callFrames (removeCompletedTaskSlot handle vm).locals := by
  unfold removeCompletedTaskSlot
  split
  · exact h
  · exact h

theorem noteSubmission (env : Env) (vm : Vm) (h : FrameHeld outer frame held vm.callFrames vm.locals) (rt : WorkerRuntime)
    (index id : Nat) (payload : List Byte) : FrameHeld outer frame held (noteSubmission env rt index id payload vm).callFrames
      (noteSubmission env rt index id payload vm).locals := by
  unfold Aivm.noteSubmission
  split
  · exact h
  · exact h

theorem keepTombstone {handle : Nat} {u} (hv : FrameHeld outer frame held vm.callFrames vm.locals)
    (h : keepTombstone handle vm = .ok u vm') : FrameHeld outer frame held vm'.callFrames vm'.locals := by
  obtain rfl | rfl | ⟨-, -, rfl⟩ := keepTombstone_ok h
  · exact hv
  · exact hv
  · exact hv

theorem proceeds : Proceeds env nested (Keeping (Vm.InCall outer frame held)) := by
  have hwf : Admits env nested (Keeping Vm.WellFormed) := Vm.WellFormed.admits
  exact {
    chains := Keeping.chains _
    quiet := fun hq h => by
      refine h.change (hwf.quiet hq) ⟨hq.callFrames ▸ h.2.frames, ?_⟩
      rw [hq.locals]
      exact h.2.locals
    fault := fun vm hf h => h.change (hwf.fault vm hf) h.2
    pair := fun p vm hroom h => h.change (hwf.pair p vm hroom) h.2
    stackLimit := fun needed vm h => h.change (hwf.stackLimit needed vm) h.2
    push := fun v vm hroom h => h.change (hwf.push v vm hroom) h.2
    pop := fun vm h => h.change (hwf.pop vm) h.2
    validate := validateCallLocalState_ends (Keeping.chains _) fun _ _ h => ⟨h.1.of_layout rfl, h.2⟩
    localsLimit := fun needed vm h => h.change (hwf.localsLimit needed vm) h.2
    store := fun index v vm hb hl h => h.change (hwf.store index v vm hb hl) (h.writeLocal hb v)
    builder := fun slot b vm h => h.change (hwf.builder slot b vm) h.2
    map := fun slot m vm h => h.change (hwf.map slot m vm) h.2
    workerFault := fun f vm h => h.change (hwf.workerFault f vm) h.2
    invocationFault := fun vm hrt hrun h => h.change (hwf.invocationFault vm hrt hrun) h.2
    finished := fun result vm ht hp hw hs h => h.change (hwf.finished result vm ht hp hw hs) h.2
    returned := fun result vm ht hp hw h => h.change (hwf.returned result vm ht hp hw) h.2
    abandoned := fun handle vm he h => h.change (hwf.abandoned handle vm he) h.2
    frameLimit := fun needed vm h => h.change (hwf.frameLimit needed vm) h.2
    pushFrame := fun {target base} vm hb hr ht hf h => by
      refine h.change (hwf.pushFrame vm hb hr ht hf) ⟨?_, h.2.locals⟩
      obtain ⟨inner, hframes⟩ := h.2.frames
      exact ⟨inner ++ [⟨target, base, vm.locals.length⟩], by simp [hframes]⟩
    reuse := fun {last argCount} vm hlast ha hb h =>
      h.change (hwf.reuse vm hlast ha hb) ⟨h.2.frames, h.dropLocals (h.base_le hlast)⟩
    openPar := fun n vm hroom h => h.change (hwf.openPar n vm hroom) h.2
    addPar := fun v vm hne hroom h => h.change (hwf.addPar v vm hne hroom) h.2
    closePar := fun vm hlast h => h.change (hwf.closePar vm hlast) h.2
    reclaimed := fun vm hs h => h.change (hwf.reclaimed vm hs) h.2
    entered := fun r vm hroom h => h.change (hwf.entered r vm hroom) h.2
    started := fun vm hroom ht ha hw he h => h.change (hwf.started vm hroom ht ha hw he) h.2
    created := fun vm hn hc h => h.change (hwf.created vm hn hc) h.2
    submitted := fun {rt rt' index payload} vm hroom hrt hs h => by
      have hnoted := noteSubmission env (setWorkerRuntime rt' (enterTask (pendingWorkerTask index vm.nextTaskHandle) vm)) h.2
        rt' index vm.nextTaskHandle (payload.getD [])
      exact h.change (hwf.submitted vm hroom hrt hs) hnoted
    refused := fun {rt rt' index payload status} vm hroom hrt hs h => by
      have hremoved := removeHandle (setWorkerRuntime rt' (enterTask (pendingWorkerTask index vm.nextTaskHandle) vm)) h.2
        vm.nextTaskHandle
      exact h.change (hwf.refused vm hroom hrt hs) hremoved
    unheard := fun index vm hroom hrt h => by
      have hremoved := removeHandle (enterTask (pendingWorkerTask index vm.nextTaskHandle) vm) h.2 vm.nextTaskHandle
      exact h.change (hwf.unheard index vm hroom hrt) hremoved
    workload := fun vm hne ht hb hg hh h => h.change (hwf.workload vm hne ht hb hg hh) h.2
    materialized := fun {rt rt' slot g payload} vm hroom hrt hg hp ht hs h => by
      have hnoted := noteSubmission env
        (setWorkerRuntime rt' (enterTask (pendingWorkerTask g.workerCatalogIndex vm.nextTaskHandle) vm))
        h.2 rt' g.workerCatalogIndex vm.nextTaskHandle payload
      exact h.change (hwf.materialized vm hroom hrt hg hp ht hs) hnoted
    canceled := fun id vm hrt h => h.change (hwf.canceled id vm hrt) h.2
    consumed := fun {handle u vm₀ vm₁} vm hset hq hkeep h => by
      have hkept := keepTombstone (hq h).2 hkeep
      refine h.change (fun hv => ?_) (removeHandle _ hkept handle)
      exact ((hq h).1.keepTombstone hkeep |>.removeHandle handle).of_layout rfl
    handled := fun vm hc hp hf h => h.change (hwf.handled vm hc hp hf) h.2 }

end Vm.InCall

/-! ## Returns -/

section Returns

variable {env : Env} {outer : List CallFrame} {frame : CallFrame} {held : List Value} {vm vm' : Vm}

/-- A state between those of a collection. -/
structure Vm.Steady (vm vm' : Vm) : Prop where
  program : vm'.program = vm.program
  frames : vm'.callFrames = vm.callFrames
  locals : vm'.locals.map Value.shape = vm.locals.map Value.shape
  stack : vm'.stack.length = vm.stack.length

theorem Vm.Steady.storing : Storing Vm.Steady where
  chains := ⟨fun _ => ⟨rfl, rfl, rfl, rfl⟩, fun h h' =>
    ⟨h'.program.trans h.program, h'.frames.trans h.frames, h'.locals.trans h.locals, h'.stack.trans h.stack⟩⟩
  quiet hq := ⟨hq.program, hq.callFrames, hq.locals, hq.length_stack⟩
  fault _ _ := ⟨rfl, rfl, rfl, rfl⟩

theorem restoreFrame_leaves {u} (h : restoreFrame frame vm = .ok u vm') :
    vm'.callFrames = vm.callFrames ∧ vm'.locals = vm.locals.take frame.localsBase ∧
      (vm'.stack.length = frame.frameBase ∨ vm'.stack.length = frame.frameBase + 1) := by
  obtain ⟨_, _, hget, h⟩ := bind_ok.1 h
  cases hget
  split at h
  · cases h
  split at h
  · cases h
  rename_i hbase
  have hlength : (vm.stack.take frame.frameBase).length = frame.frameBase := List.length_take_of_le (Nat.le_of_not_lt hbase)
  obtain ⟨_, vm₁, hvalidate, h⟩ := bind_ok.1 h
  have hsame : vm₁ = vm := by
    unfold validateVmReturnRestore at hvalidate
    split at hvalidate
    · cases hvalidate
    split at hvalidate
    · cases hvalidate
    · cases hvalidate
      rfl
  subst hsame
  obtain ⟨_, _, hmodify, h⟩ := bind_ok.1 h
  cases hmodify
  cases hresult : (if frame.frameBase < vm₁.stack.length then vm₁.stack.getLast? else none) with
  | none =>
      simp only [hresult] at h
      cases h
      exact ⟨rfl, rfl, .inl hlength⟩
  | some v =>
      simp only [hresult] at h
      obtain ⟨_, vm₂, hpush, h⟩ := bind_ok.1 h
      cases h
      rw [stackPush_eq hpush]
      refine ⟨rfl, rfl, .inr ?_⟩
      have happend : (vm₁.stack.take frame.frameBase ++ [v]).length = frame.frameBase + 1 := by simp [hlength]
      exact happend

/-- A return leaves the last frame. -/
theorem ret_leaves {u} (hne : vm.callFrames ≠ []) (h : ret env vm = .ok u vm') : ∃ last, vm.callFrames.getLast? = some last ∧
    vm'.callFrames = vm.callFrames.dropLast ∧ vm'.locals.map Value.shape = (vm.locals.take last.localsBase).map Value.shape ∧
    vm'.instructionPointer = last.returnInstructionPointer ∧
    (vm'.stack.length = last.frameBase ∨ vm'.stack.length = last.frameBase + 1) := by
  obtain ⟨_, _, hget, h⟩ := bind_ok.1 h
  cases hget
  rw [if_neg hne] at h
  obtain ⟨last, vm₁, hpop, h⟩ := bind_ok.1 h
  obtain ⟨hlast, -, rfl⟩ := Admits.framePop_ok hpop
  obtain ⟨_, vm₂, hrestore, h⟩ := bind_ok.1 h
  obtain ⟨_, vm₃, hsafe, h⟩ := bind_ok.1 h
  cases h
  obtain ⟨hframes, hlocals, hstack⟩ := restoreFrame_leaves hrestore
  have hsteady := Vm.Steady.storing.returnSafePoint.ok hsafe
  refine ⟨last, hlast, hsteady.frames.trans hframes, ?_, rfl, ?_⟩
  · have hl := hsteady.locals
    rw [hlocals] at hl
    exact hl
  · have hs := hsteady.stack
    rw [← hs] at hstack
    exact hstack

/-- A return leaves the frame of the function, or one above it. -/
theorem FrameHeld.ret {u} (hv : vm.InCall outer frame held) (h : ret env vm = .ok u vm') :
    FrameHeld outer frame held vm'.callFrames vm'.locals ∨ vm'.Returned outer frame held := by
  obtain ⟨last, hlast, hframes, hlocals, hpointer, hstack⟩ := ret_leaves (List.ne_nil_of_mem hv.mem) h
  obtain ⟨inner, hinner⟩ := hv.2.frames
  rcases List.eq_nil_or_concat inner with rfl | ⟨inner, top, rfl⟩
  · rw [hinner, List.getLast?_append_cons, List.getLast?_singleton, Option.some.injEq] at hlast
    subst hlast
    refine .inr ⟨?_, ?_, hpointer, hstack⟩
    · rw [hframes, hinner, List.dropLast_concat]
    · rw [hlocals, List.map_take]
      exact hv.2.locals
  · refine .inl ⟨⟨inner, ?_⟩, ?_⟩
    · have hsplit : vm.callFrames = (outer ++ frame :: inner) ++ [top] := by simp [hinner]
      rw [hframes, hsplit, List.dropLast_concat]
    · rw [hlocals]
      exact hv.dropLocals (hv.base_le hlast)

end Returns

/-! ## Steps of a function -/

section Functions

variable {env : Env} {outer : List CallFrame} {frame : CallFrame} {held : List Value} {vm vm₁ v w : Vm} {fuel : Nat}

theorem Vm.InCall.booked (h : v.InCall outer frame held) (hb : v.Booked w) : w.InCall outer frame held := by
  refine ⟨Vm.WellFormed.survives.booked hb h.1, ?_⟩
  rw [hb.same]
  exact h.2

theorem Vm.InCall.step_returns (hv : v.InCall outer frame held) {i : Instruction}
    (hi : v.program.instructions[v.instructionPointer]? = some i) (hreturns : i.returns = true) (h : step env fuel v = some w) :
    w.stopped = true ∨ w.InCall outer frame held ∨ w.Returned outer frame held := by
  have hwf : w.WellFormed := Vm.WellFormed.admits.stepWith Vm.WellFormed.survives.booked h hv.1
  by_cases hstopped : v.stopped = true
  · exact .inl (step_stopped hstopped h ▸ hstopped)
  have hgoes : v.stopped = false := Bool.eq_false_iff.2 hstopped
  obtain hs | ⟨u, vm₁, hok, rfl⟩ := step_executes hgoes hi h
  · exact .inl hs
  have hret : ret env (beginStep i v) = .ok u vm₁ := by
    unfold execute at hok
    simp only [Instruction.returns, decide_eq_true_eq] at hreturns
    rcases hreturns with hop | hop <;> simpa only [hop] using hok
  have hsettled := (Vm.Booked.settles vm₁).same
  obtain hheld | hreturned := FrameHeld.ret (hv.booked (.begins i hgoes)) hret
  · refine .inr (.inl ⟨hwf, ?_⟩)
    rw [hsettled]
    exact hheld
  · refine .inr (.inr ?_)
    unfold settle
    split
    · exact ⟨hreturned.frames, hreturned.locals, hreturned.pointer, hreturned.stack⟩
    · exact hreturned

/-- An instruction of the function leaves it running, unless it returns from it. -/
theorem Vm.InCall.step (hv : v.InCall outer frame held) (h : step env fuel v = some w) :
    w.stopped = true ∨ w.InCall outer frame held ∨ w.Returned outer frame held := by
  by_cases hr : ∃ i, v.program.instructions[v.instructionPointer]? = some i ∧ i.returns = true
  · obtain ⟨i, hi, hreturns⟩ := hr
    exact hv.step_returns hi hreturns h
  have hlands : ∀ i, v.program.instructions[v.instructionPointer]? = some i →
      Lands (Keeping (Vm.InCall outer frame held)) (execute env (finish env fuel) i) (beginStep i v) := by
    intro i hi
    refine proceeds.execute i (List.getElem?_eq_some_iff.1 hi).1 rfl (Bool.eq_false_iff.2 fun hreturns => ?_)
    exact hr ⟨i, hi, hreturns⟩
  obtain ⟨hs, rfl⟩ | ⟨-, -, rfl⟩ | ⟨i, vm₁, hgoes, -, hq, hend⟩ := stepWith_lands hlands h
  · exact .inl hs
  · exact .inl (by simp [Vm.stopped])
  · have h₁ : vm₁.InCall outer frame held := hq (hv.booked (.begins i hgoes))
    obtain ⟨vm₂, hl, rfl⟩ | rfl := hend
    · exact .inr (.inl ((h₁.booked (.of_landing hl)).booked (.settles vm₂)))
    · exact .inr (.inl ((h₁.booked (.stops vm₁)).booked (.settles _)))

/-! ## Calls of a function -/

/-- The frame that a call makes. -/
def Vm.calleeFrame (vm : Vm) (target : Nat) : CallFrame :=
  ⟨vm.instructionPointer + 1, vm.stack.length - inferCallArgCount vm.program target, vm.locals.length⟩

theorem framePush_ok {target base : Nat} {u} (h : framePush target base vm = .ok u w) :
    w.callFrames = vm.callFrames ++ [⟨target, base, vm.locals.length⟩] ∧ w.locals = vm.locals := by
  obtain ⟨_, vm₁, hvalidate, hpush⟩ := bind_ok.1 h
  obtain ⟨rfl, -, -⟩ := validateCallLocalState_ok hvalidate
  obtain ⟨_, _, hget, h⟩ := bind_ok.1 hpush
  cases hget
  dsimp only at h
  split at h
  · obtain ⟨_, _, hthrow, -⟩ := bind_ok.1 h
    cases hthrow
  obtain ⟨_, _, hlimit, h⟩ := bind_ok.1 h
  cases hlimit
  obtain ⟨_, _, hget, h⟩ := bind_ok.1 h
  cases hget
  split at h
  · obtain ⟨_, _, hthrow, -⟩ := bind_ok.1 h
    cases hthrow
  · cases h
    exact ⟨rfl, rfl⟩

theorem checkCallTarget_count {target n : Nat} (h : (checkCallTarget env target).run vm = .ok n w) :
    n = inferCallArgCount vm.program target := by
  obtain ⟨_, _, hlook, h⟩ := bind_ok.1 h
  cases hlook
  dsimp only at h
  split at h
  · obtain ⟨_, _, hthrow, _⟩ := bind_ok.1 h
    exact absurd hthrow routine_throw_ok
  · obtain ⟨_, vm₁, hlayout, h⟩ := bind_ok.1 h
    cases h
    rfl

/-- A call either takes the place of the running function or makes a frame over it. -/
theorem call_ok {operand : Int} {u} (h : call env operand vm = .ok u w) :
    w.callFrames = vm.callFrames ∨
      w.callFrames = vm.callFrames ++ [vm.calleeFrame operand.toNat] ∧ w.locals = vm.locals := by
  obtain ⟨target, vm₁, htarget, h⟩ := bind_ok.1 h
  have hoperand : target = operand.toNat := by
    unfold Routine.operandToIndex at htarget
    split at htarget
    · exact absurd htarget routine_throw_ok
    · cases htarget
      rfl
  cases operandToIndex_ok htarget
  obtain ⟨_, _, hget, h⟩ := bind_ok.1 h
  cases hget
  split at h
  · cases h
  obtain ⟨argCount, vm₂, hcheck, hrest⟩ := bind_ok.1 h
  have hcount := checkCallTarget_count hcheck
  obtain ⟨rfl, -⟩ := checkCallTarget_ok hcheck
  obtain ⟨_, _, hmodify, hrest⟩ := bind_ok.1 hrest
  cases hmodify
  obtain ⟨_, vm₃, hframe, hrest⟩ := bind_ok.1 hrest
  obtain ⟨rfl, -⟩ := checkArgumentFrame_ok hframe
  obtain ⟨_, _, hget, hlast⟩ := bind_ok.1 hrest
  cases hget
  have hpushed : (do framePush (vm₂.instructionPointer + 1) (vm₂.stack.length - argCount); goTo target : VmM Unit)
      (recordRecentCall target argCount vm₂) = .ok u w →
      w.callFrames = vm₂.callFrames ++ [vm₂.calleeFrame operand.toNat] ∧ w.locals = vm₂.locals := by
    intro hpushes
    obtain ⟨_, vm₄, hpush, hgo⟩ := bind_ok.1 hpushes
    cases hgo
    obtain ⟨hframes, hlocals⟩ := framePush_ok hpush
    refine ⟨?_, hlocals⟩
    rw [Vm.calleeFrame, ← hoperand, ← hcount]
    exact hframes
  cases htail : isTailCall (recordRecentCall target argCount vm₂) with
  | false =>
      simp only [htail] at hlast
      exact .inr (hpushed hlast)
  | true =>
      cases hframe : (recordRecentCall target argCount vm₂).callFrames.getLast? with
      | none =>
          simp only [htail, hframe] at hlast
          exact .inr (hpushed hlast)
      | some frame =>
          simp only [htail, hframe] at hlast
          obtain ⟨_, _, hmodify, hgo⟩ := bind_ok.1 hlast
          cases hmodify
          cases hgo
          exact .inl rfl

/-- A call that has made a frame. -/
theorem step_calls {i : Instruction} (hwf : vm.WellFormed) (hgoes : vm.stopped = false)
    (hi : vm.program.instructions[vm.instructionPointer]? = some i) (hop : i.opcode = .call) (h : step env fuel vm = some vm₁)
    (hgrow : vm.callFrames.length < vm₁.callFrames.length) :
    vm₁.stopped = true ∨ vm₁.InCall vm.callFrames (vm.calleeFrame i.operandInt.toNat) (vm.locals.map Value.shape) := by
  have hwf₁ : vm₁.WellFormed := Vm.WellFormed.admits.stepWith Vm.WellFormed.survives.booked h hwf
  obtain hs | ⟨u, vm₂, hok, rfl⟩ := step_executes hgoes hi h
  · exact .inl hs
  have hcall : call env i.operandInt (beginStep i vm) = .ok u vm₂ := by
    unfold execute at hok
    simpa only [hop] using hok
  have hsettled := (Vm.Booked.settles vm₂).same
  rw [hsettled] at hgrow
  obtain hframes | ⟨hframes, hlocals⟩ := call_ok hcall
  · have hlen := congrArg List.length hframes
    exact absurd hgrow (Nat.not_lt.2 (Nat.le_of_eq hlen))
  · refine .inr ⟨hwf₁, ?_⟩
    rw [hsettled]
    refine ⟨⟨[], hframes⟩, ?_⟩
    have htake : (vm.locals.map Value.shape).take vm.locals.length = vm.locals.map Value.shape := by
      rw [List.take_of_length_le (by simp)]
    rw [hlocals]
    exact htake

/-- The states that a machine passes while it has more than `depth` frames, and the first one without. -/
inductive Deeper (env : Env) (depth : Nat) (vm : Vm) : Vm → Prop where
  | entered : Deeper env depth vm vm
  | stepped {v fuel v'} : Deeper env depth vm v → depth < v.callFrames.length → step env fuel v = some v' →
      Deeper env depth vm v'

end Functions

end Aivm
