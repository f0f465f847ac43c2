import Aivm.Machine.Lemmas.Closed

/-!
# A machine outside its stores

The stores allocate, collect and rename what values point to. Outside them lie the numbers and the kinds of the values
that a machine holds, its control state and its tables, and no operation of the stores changes any of that. A fault of
the stores is never a report about the machine itself.
-/

namespace Results

theorem bind_error {ε α β : Type} {x : Except ε α} {f : α → Except ε β} {e : ε} :
    (x >>= f) = .error e ↔ x = .error e ∨ ∃ a, x = .ok a ∧ f a = .error e := by
  cases x with
  | error e' => simp [bind, Except.bind]
  | ok a => simp [bind, Except.bind]

end Results

namespace Aivm

open VmM

/-- A value without the place it points to. -/
def Value.shape : Value → Value
  | .string _ => .string .null
  | .bytes _ n => .bytes .null n
  | .node _ => .node 0
  | .pair _ => .pair 0
  | v => v

/-- A task whose result has lost the place it points to. -/
def CompletedTask.shape {W : Type} (t : CompletedTask W) : CompletedTask W := { t with result := t.result.shape }

/-- A builder without its attributes and children. -/
def NodeBuilderRecord.shape (b : NodeBuilderRecord) : NodeBuilderRecord := { b with attrs := [], children := [] }

/-- A machine without its stores, what values point to, and what only reports and statistics read. -/
def Vm.outside (vm : Vm) : Vm :=
  { vm with
    toHeap := ⟨[], 0, [], 0, [], [], [], []⟩
    stringArenaLimit := 0
    stringArenaCapacity := 0
    bytesArenaLimit := 0
    bytesArenaCapacity := 0
    bytesArenaGcThreshold := 0
    nodeCapacity := 0
    nodeAttrCapacity := 0
    nodeChildCapacity := 0
    hostMemoryGrowthSuspended := false
    stack := vm.stack.map Value.shape
    recentCalls := []
    recentReturns := []
    recentOpcodes := []
    locals := vm.locals.map Value.shape
    staleLocals := []
    stringIntern := ⟨[], 0, false⟩
    utf8OffsetCache := ⟨.null, 0, 0⟩
    processArgvNodeHandle := 0
    completedTasks := vm.completedTasks.map CompletedTask.shape
    parValues := vm.parValues.map Value.shape
    nextParNodeId := 0
    nodeBuilders := vm.nodeBuilders.map (Option.map NodeBuilderRecord.shape)
    uiDefaultWindowSizeNodeHandle := 0
    uiEmptyEventNodeHandle := 0
    nodeAllocationsSinceGc := 0
    counters := ⟨0, 0, 0, 0, 0, 0, 0, 0, 0, 0, 0, 0, 0, 0, 0, 0⟩ }

/-- Only the stores have changed, and there are no more pairs than before. -/
structure Vm.Quiet (vm vm' : Vm) : Prop where
  outside : vm'.outside = vm.outside
  pairs : vm'.scratchPairs.length ≤ vm.scratchPairs.length

variable {env : Env} {vm vm' vm'' : Vm}

namespace Vm.Quiet

theorem refl (vm : Vm) : vm.Quiet vm := ⟨rfl, Nat.le_refl _⟩

theorem trans (h : vm.Quiet vm') (h' : vm'.Quiet vm'') : vm.Quiet vm'' :=
  ⟨h'.outside.trans h.outside, Nat.le_trans h'.pairs h.pairs⟩

theorem chains : Chains Vm.Quiet := ⟨refl, trans⟩

theorem program (h : vm.Quiet vm') : vm'.program = vm.program := by
  have ho := congrArg Vm.program h.outside
  exact ho

theorem instructionPointer (h : vm.Quiet vm') : vm'.instructionPointer = vm.instructionPointer := by
  have ho := congrArg Vm.instructionPointer h.outside
  exact ho

theorem callFrames (h : vm.Quiet vm') : vm'.callFrames = vm.callFrames := by
  have ho := congrArg Vm.callFrames h.outside
  exact ho

theorem stack (h : vm.Quiet vm') : vm'.stack.map Value.shape = vm.stack.map Value.shape := congrArg Vm.stack h.outside

theorem locals (h : vm.Quiet vm') : vm'.locals.map Value.shape = vm.locals.map Value.shape := congrArg Vm.locals h.outside

theorem tasks (h : vm.Quiet vm') : vm'.completedTasks.map CompletedTask.shape = vm.completedTasks.map CompletedTask.shape :=
  congrArg Vm.completedTasks h.outside

theorem parValues (h : vm.Quiet vm') : vm'.parValues.map Value.shape = vm.parValues.map Value.shape :=
  congrArg Vm.parValues h.outside

theorem length_stack (h : vm.Quiet vm') : vm'.stack.length = vm.stack.length := by
  simpa using congrArg List.length h.stack

theorem length_locals (h : vm.Quiet vm') : vm'.locals.length = vm.locals.length := by
  simpa using congrArg List.length h.locals

end Vm.Quiet

/-! ## Values that point elsewhere -/

/-- Entries that keep their shape. -/
theorem map_eq_of_forall₂ {α β : Type} {f : α → β} {R : α → α → Prop} (hR : ∀ {a b}, R a b → f b = f a) {as bs : List α}
    (h : List.Forall₂ R as bs) : bs.map f = as.map f := by
  induction h with
  | nil => rfl
  | cons hab _ ih => simp [hR hab, ih]

theorem mapM_shape {α β : Type} {f : α → Option α} {g : α → β} (hf : ∀ a b, f a = some b → g b = g a) {as bs : List α}
    (h : as.mapM f = some bs) : bs.map g = as.map g :=
  map_eq_of_forall₂ (R := fun a b => f a = some b) (hf _ _) (Unfold.mapM_eq_some.1 h)

theorem mapAccum_shape {α β σ ε : Type} {f : α → σ → Except ε (α × σ)} {g : α → β}
    (hf : ∀ a s b s', f a s = .ok (b, s') → g b = g a) {as bs : List α} {s s'} (h : mapAccum f as s = .ok (bs, s')) :
    bs.map g = as.map g :=
  map_eq_of_forall₂ (R := fun a b => g b = g a) (fun h => h) (MapAccum.forall₂_of_step hf h)

theorem remapValueNodeHandle_shape {capacity pairCount map v w}
    (h : remapValueNodeHandle capacity pairCount map v = some w) : w.shape = v.shape := by
  unfold remapValueNodeHandle at h
  split at h
  · split at h
    · cases h
      rfl
    · cases h
  · obtain ⟨k, -, rfl⟩ := Option.map_eq_some_iff.1 h
    rfl
  · cases h
    rfl

theorem remapValueScratchPairHandle_shape {pairCount map v w} (h : remapValueScratchPairHandle pairCount map v = some w) :
    w.shape = v.shape := by
  unfold remapValueScratchPairHandle at h
  split at h
  · obtain ⟨k, -, rfl⟩ := Option.map_eq_some_iff.1 h
    rfl
  · cases h
    rfl

theorem compactRelocateValueString_shape {h : Heap} {block capacity v arena w arena'}
    (hr : compactRelocateValueString h block capacity v arena = .ok (w, arena')) : w.shape = v.shape := by
  cases v with
  | string p =>
      obtain ⟨⟨q, a⟩, -, hq⟩ := Results.bind_ok.1 hr
      cases hq
      rfl
  | _ =>
      cases hr
      rfl

theorem compactRelocateValueBytes_shape {h : Heap} {block capacity n v s w s'}
    (hr : compactRelocateValueBytes h block capacity n v s = .ok (w, s')) : w.shape = v.shape := by
  unfold compactRelocateValueBytes at hr
  split at hr
  · simp only at hr
    split at hr
    · split at hr
      · cases hr
        rfl
      · split at hr
        · cases hr
        · cases hr
          rfl
    · cases hr
      rfl
  · cases hr
    rfl

theorem shape_result {W : Type} {t : CompletedTask W} {v : Value} (h : v.shape = t.result.shape) :
    CompletedTask.shape { t with result := v } = t.shape := by
  simp [CompletedTask.shape, h]

/-! ## Faults of the stores -/

theorem Fault.Regular.memory {text : String} (h : text.toList.head? = some 'A') : Fault.Regular ⟨.memoryPressure, text⟩ :=
  .of_head (by simp) h (by simp)

theorem pairToMark_fault {v e} (h : pairToMark vm v = .error e) : e.Regular := by
  unfold pairToMark at h
  split at h
  · split at h
    · cases h
    · cases h
      exact .of_head (by simp) (c := 'I') (by simp) (by simp)
  · cases h

theorem pairWorklistFull_regular : pairWorklistFull.Regular := .memory (by simp)

theorem pairPolicy_fault {m p e} (h : (pairPolicy vm).room m p = some e) : e.Regular := by
  simp only [pairPolicy, Worklist.Policy.stack] at h
  split at h
  · cases h
    exact pairWorklistFull_regular
  · cases h

theorem pairFields_fault {k e} : pairFields vm k ≠ .error e := by
  unfold pairFields
  split <;> simp

theorem markLiveScratchPairHandles_fault {e} (h : markLiveScratchPairHandles env vm = .error e) : e.Regular := by
  unfold markLiveScratchPairHandles at h
  split at h
  · cases h
  split at h
  · obtain hv | ⟨s, -, hd⟩ := Results.bind_error.1 h
    · exact Worklist.visitItems_fault (fun _ _ => pairToMark_fault) (fun _ _ _ => pairPolicy_fault) hv
    · exact Worklist.drain_fault (fun _ _ => pairToMark_fault) (fun _ _ _ => pairPolicy_fault)
        (fun _ _ he => absurd he pairFields_fault) pairWorklistFull_regular hd
  · cases h
    exact .memory (by simp)

theorem childHandles_fault {h e} (he : childHandles vm h = .error e) : e.Regular := by
  unfold childHandles at he
  split at he
  · cases he
    exact .of_head (by simp) (c := 'I') (by simp) (by simp)
  split at he
  · cases he
  · cases he
    exact .of_head (by simp) (c := 'I') (by simp) (by simp)

theorem extraToMark_fault {h e} (he : extraToMark vm h = .error e) : e.Regular := by
  unfold extraToMark at he
  split at he
  · cases he
  split at he
  · cases he
    exact .of_head (by simp) (c := 'I') (by simp) (by simp)
  · cases he

theorem nodeQueueFull_regular : nodeQueueFull.Regular := .memory (by simp)

theorem nodePolicy_fault {m p e} (h : (nodePolicy vm).room m p = some e) : e.Regular := by
  simp only [nodePolicy, Worklist.Policy.queue] at h
  split at h
  · cases h
    exact nodeQueueFull_regular
  · cases h

theorem markLiveNodeHandles_fault {extra e} (h : markLiveNodeHandles env vm extra = .error e) : e.Regular := by
  have hnode : ∀ {k e}, nodeToMark vm k ≠ .error e := by simp [nodeToMark]
  unfold markLiveNodeHandles at h
  split at h
  · obtain hp | ⟨livePairs, -, h⟩ := Results.bind_error.1 h
    · exact markLiveScratchPairHandles_fault hp
    obtain hv | ⟨s, -, h⟩ := Results.bind_error.1 h
    · exact Worklist.visitItems_fault (fun _ _ he => absurd he hnode) (fun _ _ _ => nodePolicy_fault) hv
    obtain hv | ⟨s, -, h⟩ := Results.bind_error.1 h
    · exact Worklist.visitItems_fault (fun _ _ => extraToMark_fault) (fun _ _ _ => nodePolicy_fault) hv
    · exact Worklist.drain_fault (fun _ _ he => absurd he hnode) (fun _ _ _ => nodePolicy_fault)
        (fun _ _ => childHandles_fault) nodeQueueFull_regular h
  · cases h
    exact .memory (by simp)

theorem compactNode_fault {map acc h e} (he : compactNode vm map acc h = .error e) : e.Regular := by
  unfold compactNode at he
  split at he
  · cases he
    exact .of_head (by simp) (c := 'D') (by simp) (by simp)
  split at he
  · cases he
    exact .memory (by simp)
  split at he
  · cases he
    exact .memory (by simp)
  split at he
  · cases he
    exact .memory (by simp)
  split at he
  · cases he
    exact .of_head (by simp) (c := 'D') (by simp) (by simp)
  · cases he

theorem compactNodes_fault {map hs e} : ∀ {acc}, compactNodes vm map hs acc = .error e → e.Regular := by
  induction hs with
  | nil => simp [compactNodes]
  | cons h hs ih =>
      intro acc he
      rw [compactNodes] at he
      split at he
      · rename_i hn
        cases he
        exact compactNode_fault hn
      · exact ih he

theorem stringArenaExceeded_regular : stringArenaExceeded.Regular := .memory (by simp)

section Relocate

variable {h : Heap} {block capacity : Nat} {arena : List Byte} {e : Fault}

theorem compactRelocateStringPtr_fault {p} (he : compactRelocateStringPtr h block capacity p arena = .error e) :
    e.Regular := by
  unfold compactRelocateStringPtr at he
  split at he
  · split at he
    · cases he
    · cases he
      exact stringArenaExceeded_regular
  · cases he

theorem compactRelocateValueString_fault {v} (he : compactRelocateValueString h block capacity v arena = .error e) :
    e.Regular := by
  cases v with
  | string p =>
      obtain he | ⟨_, _, he⟩ := Results.bind_error.1 he
      · exact compactRelocateStringPtr_fault he
      · cases he
  | _ => cases he

theorem relocateTask_fault {W : Type} {t : CompletedTask W} (he : relocateTask h block capacity t arena = .error e) :
    e.Regular := by
  obtain he | ⟨_, _, he⟩ := Results.bind_error.1 he
  · exact compactRelocateValueString_fault he
  · cases he

theorem relocatePair_fault {livePairs p} (he : relocatePair h block capacity livePairs p arena = .error e) :
    e.Regular := by
  unfold relocatePair at he
  split at he
  · obtain he | ⟨_, _, he⟩ := Results.bind_error.1 he
    · exact compactRelocateValueString_fault he
    obtain he | ⟨_, _, he⟩ := Results.bind_error.1 he
    · exact compactRelocateValueString_fault he
    · cases he
  · cases he

theorem relocateAttr_fault {a} (he : relocateAttr h block capacity a arena = .error e) : e.Regular := by
  obtain he | ⟨_, _, he⟩ := Results.bind_error.1 he
  · exact compactRelocateStringPtr_fault he
  cases hv : a.value with
  | identifier p =>
      simp only [hv] at he
      obtain he | ⟨_, _, he⟩ := Results.bind_error.1 he
      · exact compactRelocateStringPtr_fault he
      · cases he
  | string p =>
      simp only [hv] at he
      obtain he | ⟨_, _, he⟩ := Results.bind_error.1 he
      · exact compactRelocateStringPtr_fault he
      · cases he
  | int i =>
      rw [hv] at he
      cases he
  | bool b =>
      rw [hv] at he
      cases he

theorem relocateAttrSlots_fault {attrCapacity slots} : ∀ {attrs arena},
    relocateAttrSlots h block capacity attrCapacity slots attrs arena = .error e → e.Regular := by
  induction slots with
  | nil => simp [relocateAttrSlots]
  | cons slot slots ih =>
      intro attrs arena he
      rw [relocateAttrSlots] at he
      split at he
      · cases he
        exact .memory (by simp)
      split at he
      · exact ih he
      split at he
      · rename_i ha
        cases he
        exact relocateAttr_fault ha
      · exact ih he

theorem relocateNode_fault {attrCapacity live n s} (he : relocateNode h block capacity attrCapacity live n s = .error e) :
    e.Regular := by
  unfold relocateNode at he
  split at he
  · obtain he | ⟨_, _, he⟩ := Results.bind_error.1 he
    · exact compactRelocateStringPtr_fault he
    obtain he | ⟨_, _, he⟩ := Results.bind_error.1 he
    · exact compactRelocateStringPtr_fault he
    obtain he | ⟨_, _, he⟩ := Results.bind_error.1 he
    · exact relocateAttrSlots_fault he
    · cases he
  · cases he

theorem compactRelocateValueBytes_fault {n v s} (he : compactRelocateValueBytes h block capacity n v s = .error e) :
    e.Regular := by
  unfold compactRelocateValueBytes at he
  split at he
  · simp only at he
    split at he
    · split at he
      · cases he
      · split at he
        · cases he
          exact .memory (by simp)
        · cases he
    · cases he
  · cases he

theorem relocateTaskBytes_fault {W : Type} {t : CompletedTask W} {n s}
    (he : relocateTaskBytes h block capacity n t s = .error e) : e.Regular := by
  obtain he | ⟨_, _, he⟩ := Results.bind_error.1 he
  · exact compactRelocateValueBytes_fault he
  · cases he

theorem relocatePairBytes_fault {n livePairs p s} (he : relocatePairBytes h block capacity n livePairs p s = .error e) :
    e.Regular := by
  unfold relocatePairBytes at he
  split at he
  · obtain he | ⟨_, _, he⟩ := Results.bind_error.1 he
    · exact compactRelocateValueBytes_fault he
    obtain he | ⟨_, _, he⟩ := Results.bind_error.1 he
    · exact compactRelocateValueBytes_fault he
    · cases he
  · cases he

end Relocate

theorem relocateStrings_fault {block live livePairs e} (h : relocateStrings block live livePairs vm = .error e) :
    e.Regular := by
  obtain h | ⟨_, _, h⟩ := Results.bind_error.1 h
  · exact MapAccum.fault (fun _ _ _ => compactRelocateValueString_fault) h
  obtain h | ⟨_, _, h⟩ := Results.bind_error.1 h
  · exact MapAccum.fault (fun _ _ _ => compactRelocateValueString_fault) h
  obtain h | ⟨_, _, h⟩ := Results.bind_error.1 h
  · exact MapAccum.fault (fun _ _ _ => relocateTask_fault) h
  obtain h | ⟨_, _, h⟩ := Results.bind_error.1 h
  · exact MapAccum.fault (fun _ _ _ => compactRelocateValueString_fault) h
  obtain h | ⟨_, _, h⟩ := Results.bind_error.1 h
  · exact MapAccum.fault (fun _ _ _ => relocatePair_fault) h
  obtain h | ⟨_, _, h⟩ := Results.bind_error.1 h
  · exact MapAccum.fault (fun _ _ _ => relocateNode_fault) h
  · cases h

theorem relocateBytes_fault {block livePairs e} (h : relocateBytes block livePairs vm = .error e) : e.Regular := by
  obtain h | ⟨_, _, h⟩ := Results.bind_error.1 h
  · exact MapAccum.fault (fun _ _ _ => compactRelocateValueBytes_fault) h
  obtain h | ⟨_, _, h⟩ := Results.bind_error.1 h
  · exact MapAccum.fault (fun _ _ _ => compactRelocateValueBytes_fault) h
  obtain h | ⟨_, _, h⟩ := Results.bind_error.1 h
  · exact MapAccum.fault (fun _ _ _ => relocateTaskBytes_fault) h
  obtain h | ⟨_, _, h⟩ := Results.bind_error.1 h
  · exact MapAccum.fault (fun _ _ _ => compactRelocateValueBytes_fault) h
  obtain h | ⟨_, _, h⟩ := Results.bind_error.1 h
  · exact MapAccum.fault (fun _ _ _ => relocatePairBytes_fault) h
  · cases h

/-! ## Collections are quiet -/

theorem relocateStrings_quiet {block live livePairs} (h : relocateStrings block live livePairs vm = .ok vm') :
    vm.Quiet vm' := by
  simp only [relocateStrings, Results.bind_ok, Prod.exists] at h
  obtain ⟨st, a₁, h₁, lo, a₂, h₂, ta, a₃, h₃, pa, a₄, h₄, sp, a₅, h₅, ns, as, a₆, h₆, h⟩ := h
  cases h
  have hvalue : ∀ v arena w arena', compactRelocateValueString vm.toHeap block vm.stringArenaCapacity v arena =
      .ok (w, arena') → w.shape = v.shape := fun _ _ _ _ => compactRelocateValueString_shape
  have htask : ∀ (t : CompletedTask Vm) arena t' arena',
        relocateTask vm.toHeap block vm.stringArenaCapacity t arena = .ok (t', arena') →
      t'.shape = CompletedTask.shape t := by
    intro t arena t' arena' ht
    obtain ⟨⟨r, a⟩, hr, ht⟩ := Results.bind_ok.1 ht
    cases ht
    exact shape_result (compactRelocateValueString_shape hr)
  have hpairs := (MapAccum.forall₂_of_step (R := fun _ _ => True) (fun _ _ _ _ _ => trivial) h₅).length_eq
  refine ⟨?_, by simpa using Nat.le_of_eq hpairs.symm⟩
  simp only [Vm.outside, mapAccum_shape hvalue h₁, mapAccum_shape hvalue h₂, mapAccum_shape htask h₃,
    mapAccum_shape hvalue h₄]

theorem relocateBytes_quiet {block livePairs} (h : relocateBytes block livePairs vm = .ok vm') : vm.Quiet vm' := by
  simp only [relocateBytes, Results.bind_ok] at h
  obtain ⟨⟨stack, s₁⟩, h₁, ⟨locals, s₂⟩, h₂, ⟨tasks, s₃⟩, h₃, ⟨pars, s₄⟩, h₄, ⟨pairs, s₅⟩, h₅, h⟩ := h
  cases h
  have hvalue : ∀ v s w s', compactRelocateValueBytes vm.toHeap block vm.bytesArenaCapacity (relocationCapacity vm) v s =
      .ok (w, s') → w.shape = v.shape := fun _ _ _ _ => compactRelocateValueBytes_shape
  have htask : ∀ (t : CompletedTask Vm) s t' s',
        relocateTaskBytes vm.toHeap block vm.bytesArenaCapacity (relocationCapacity vm) t s =
      .ok (t', s') → t'.shape = CompletedTask.shape t := by
    intro t s t' s' ht
    obtain ⟨⟨r, a⟩, hr, ht⟩ := Results.bind_ok.1 ht
    cases ht
    exact shape_result (compactRelocateValueBytes_shape hr)
  have hpairs := (MapAccum.forall₂_of_step (R := fun _ _ => True) (fun _ _ _ _ _ => trivial) h₅).length_eq
  refine ⟨?_, by simpa using Nat.le_of_eq hpairs.symm⟩
  simp only [Vm.outside, mapAccum_shape hvalue h₁, mapAccum_shape hvalue h₂, mapAccum_shape htask h₃,
    mapAccum_shape hvalue h₄]

theorem slideScratchPairs_quiet {order} (hle : order.length ≤ vm.scratchPairs.length)
    (h : slideScratchPairs order vm = some vm') : vm.Quiet vm' := by
  simp only [slideScratchPairs, Option.bind_eq_bind, Option.bind_eq_some_iff, Option.pure_def, Option.some.injEq] at h
  obtain ⟨pairs, hp, stack, hs, locals, hl, tasks, ht, pars, hv, rfl⟩ := h
  have hvalue : ∀ v w, remapValueScratchPairHandle vm.scratchPairs.length (Sliding.place order) v = some w →
      w.shape = v.shape := fun _ _ => remapValueScratchPairHandle_shape
  have htask : ∀ t t' : CompletedTask Vm, (remapValueScratchPairHandle vm.scratchPairs.length (Sliding.place order)
      t.result).map (fun r => { t with result := r }) = some t' → CompletedTask.shape t' = CompletedTask.shape t := by
    intro t t' h
    obtain ⟨r, hr, rfl⟩ := Option.map_eq_some_iff.1 h
    exact shape_result (remapValueScratchPairHandle_shape hr)
  have hpairs := (Unfold.mapM_eq_some.1 hp).length_eq
  refine ⟨?_, by simp only; omega⟩
  simp only [Vm.outside, mapM_shape hvalue hs, mapM_shape hvalue hl, mapM_shape htask ht, mapM_shape hvalue hv]

theorem livePairOrder_length (vm : Vm) (livePairs : List Nat) :
    (livePairOrder vm livePairs).length ≤ vm.scratchPairs.length := by
  have h := List.length_filter_le (· ∈ livePairs) (List.range' 1 vm.scratchPairs.length)
  rwa [List.length_range'] at h

end Aivm
