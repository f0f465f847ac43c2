import Aivm.Machine.Lemmas.Outside

/-!
# What ordinary instructions do outside the stores

Outside the stores an ordinary instruction pushes and pops, writes locals, makes pairs and fills slots of the builder
and map tables. A relation between states that admits these ways of changing a state holds across every routine.
-/

namespace Aivm

open VmM

/-- A relation that admits what happens to the stores alone, and errors. -/
structure Storing (Q : Vm → Vm → Prop) : Prop where
  chains : Chains Q
  quiet : ∀ {vm vm'}, vm.Quiet vm' → Q vm vm'
  fault : ∀ {f : Fault} vm, f.Regular → Q vm (setVmError f vm)

/-- A relation that admits all that is done outside control, tasks and parallel blocks. -/
structure Ordinary (Q : Vm → Vm → Prop) : Prop extends Storing Q where
  pair : ∀ p vm, vm.scratchPairs.length < scratchPairCapacity → Q vm { vm with scratchPairs := vm.scratchPairs ++ [p] }
  stackLimit : ∀ needed vm, Q vm (ensureStackCapacity needed vm)
  push : ∀ v vm, vm.stack.length < vm.stackLimit → Q vm { vm with stack := vm.stack ++ [v] }
  pop : ∀ vm, Q vm { vm with stack := vm.stack.dropLast }
  validate : ∀ opName vm, Ends Q (validateCallLocalState opName) vm
  localsLimit : ∀ needed vm, Q vm (ensureLocalsCapacity needed vm)
  store : ∀ index v vm, localsBase vm ≤ index → index < vm.localsLimit → Q vm (writeLocal index v vm)
  builder : ∀ slot b vm, Q vm { vm with nodeBuilders := putSlot nodeBuilderCapacity slot b vm.nodeBuilders }
  map : ∀ slot m vm, Q vm { vm with maps := putSlot mapCapacity slot m vm.maps }

/-- A check leaves the state as it is. -/
theorem validateCallLocalState_ok {vm vm' : Vm} {opName : String} {u} (h : validateCallLocalState opName vm = .ok u vm') :
    vm' = vm ∧ withinLimits vm ∧ ∀ frame ∈ vm.callFrames.getLast?, frame.fits vm := by
  unfold validateCallLocalState at h
  split at h
  · cases h
  rename_i hw
  split at h
  · rename_i frame hframe
    split at h
    · cases h
    rename_i hfits
    split at h
    · cases h
    · cases h
      refine ⟨rfl, not_not.1 hw, fun f hf => ?_⟩
      rw [hframe] at hf
      cases hf
      exact not_not.1 hfits
  · rename_i hnone
    cases h
    exact ⟨rfl, not_not.1 hw, fun f hf => by simp [hnone] at hf⟩

theorem validateCallLocalState_ends {Q : Vm → Vm → Prop} (hq : Chains Q) (hfault : ∀ f vm, Q vm (setVmError f vm))
    (opName : String) (vm : Vm) : Ends Q (validateCallLocalState opName) vm := by
  refine .of_cases (fun u vm' h => ?_) fun vm' h => ?_
  · obtain ⟨rfl, -, -⟩ := validateCallLocalState_ok h
    exact hq.refl _
  · unfold validateCallLocalState at h
    repeat' split at h
    all_goals cases h
    all_goals exact hfault _ _

namespace Storing

variable {env : Env} {Q : Vm → Vm → Prop} {vm vm' : Vm} {α β : Type}

/-! ## Rules -/

theorem throw (hc : Storing Q) {f : Fault} (h : f.Regular) : Ends Q (VmM.throw f : VmM α) vm := .throw (hc.fault vm h)

theorem throw_bind (hc : Storing Q) {f : Fault} (h : f.Regular) (g : α → VmM β) : Ends Q (VmM.throw f >>= g) vm := by
  refine .of_cases (fun b vm' hx => ?_) fun vm' hx => ?_
  · simp [bind_ok] at hx
  · simp only [bind_fail, throw_run, Outcome.fail.injEq, reduceCtorEq, false_and, exists_false, or_false] at hx
    exact hx ▸ hc.fault vm h

/-- An update of the stores alone. -/
theorem modify (hc : Storing Q) {f : Vm → Vm} (h : vm.Quiet (f vm)) : Ends Q (VmM.modify f) vm := .modify (hc.quiet h)

theorem modify_bind (hc : Storing Q) {g : Vm → Vm} {f : Unit → VmM β} (h : vm.Quiet (g vm)) (hf : Ends Q (f ()) (g vm)) :
    Ends Q (VmM.modify g >>= f) vm := .modify_bind hc.chains (hc.quiet h) hf

theorem lift (hc : Storing Q) {f : Vm → Except Fault α} (h : ∀ e, f vm = .error e → e.Regular) :
    Ends Q (VmM.lift f) vm := .lift hc.chains fun e he => hc.fault vm (h e he)

theorem allocate (hc : Storing Q) {detail : String} (h : Fault.Regular ⟨.memoryPressure, detail⟩) :
    Ends Q (env.allocate detail) vm := .allocate hc.chains (hc.fault vm h)

theorem allocateIf (hc : Storing Q) {needed : Bool} {detail : String} (h : Fault.Regular ⟨.memoryPressure, detail⟩) :
    Ends Q (env.allocateIf needed detail) vm := .allocateIf hc.chains (hc.fault vm h)

theorem updateOr (hc : Storing Q) {e : Fault} {f : Vm → Option Vm} (he : e.Regular)
    (h : ∀ vm', f vm = some vm' → vm.Quiet vm') : Ends Q (VmM.updateOr e f) vm :=
  .updateOr (fun vm' hf => hc.quiet (h vm' hf)) (hc.fault vm he)

theorem onFail (hc : Storing Q) {f : Vm → Vm} {x : VmM α} (hx : Ends Q x vm) (hf : ∀ vm : Vm, vm.Quiet (f vm)) :
    Ends Q (VmM.onFail f x) vm := .onFail hc.chains hx fun vm' _ => hc.quiet (hf vm')

theorem bind (hc : Storing Q) {x : VmM α} {f : α → VmM β} (hx : Ends Q x vm) (hf : ∀ a vm₁, Ends Q (f a) vm₁) :
    Ends Q (x >>= f) vm := .bind hc.chains hx fun a vm₁ _ => hf a vm₁

/-! ## Growth -/

theorem growStringArena (hc : Storing Q) (needed : Nat) (vm : Vm) : Q vm (ensureStringArenaCapacity env needed vm) := by
  have h : vm.StringLimitGrown _ := ensureStringArenaCapacity_grown env needed vm
  rw [h]
  exact hc.quiet ⟨rfl, Nat.le_refl _⟩

theorem growNodeArenas (hc : Storing Q) (n a c : Nat) (vm : Vm) : Q vm (tryGrowNodeArenas env n a c vm).2 := by
  obtain ⟨_, _, _, _, h⟩ := tryGrowNodeArenas_grown env n a c vm
  rw [h]
  exact hc.quiet ⟨rfl, Nat.le_refl _⟩

theorem admitHostMemoryGrowth (hc : Storing Q) (growth : Nat) : Ends Q (Aivm.admitHostMemoryGrowth env growth) vm := by
  have hask : Q vm (askHostMemory env growth vm).2 := by
    rw [askHostMemory_grown]
    exact hc.quiet ⟨rfl, Nat.le_refl _⟩
  refine .of_cases (fun a vm' h => ?_) fun vm' h => ?_
  · rw [admitHostMemoryGrowth_ok h]
    exact hc.quiet ⟨rfl, Nat.le_refl _⟩
  · unfold Aivm.admitHostMemoryGrowth at h
    split at h
    · split at h
      · cases h
      · rename_i vm₁ he
        cases h
        rw [he] at hask
        exact hc.chains.trans hask (hc.fault _ (.memory (by simp)))
    · cases h

/-! ## Strings -/

theorem compactStringArena (hc : Storing Q) : Ends Q (Aivm.compactStringArena env) vm := by
  refine .get_bind (.ite (fun _ => .pure hc.chains ()) fun _ => hc.bind (hc.allocate (.memory (by simp))) fun _ vm₁ => ?_)
  refine hc.bind (hc.lift fun _ => markLiveNodeHandles_fault) fun live vm₂ => ?_
  refine hc.bind (hc.lift fun _ => markLiveScratchPairHandles_fault) fun livePairs vm₃ => ?_
  refine .bind hc.chains (hc.lift fun _ => relocateStrings_fault) fun moved vm₄ h => ?_
  obtain ⟨hm, rfl⟩ := lift_ok.1 h
  exact hc.modify_bind (relocateStrings_quiet hm) (hc.modify ⟨rfl, Nat.le_refl _⟩)

theorem stringArenaReserve (hc : Storing Q) (additional : Nat) : Ends Q (Aivm.stringArenaReserve env additional) vm := by
  have hcount : ∀ vm : Vm, vm.Quiet (countStringArenaPressure vm) := fun _ => ⟨rfl, Nat.le_refl _⟩
  refine .modify_bind hc.chains (hc.growStringArena _ vm) (.get_bind (.ite (fun _ => .pure hc.chains ()) fun _ => ?_))
  refine hc.bind (hc.onFail hc.compactStringArena hcount) fun _ vm₁ =>
    .modify_bind hc.chains (hc.growStringArena _ vm₁) (.get_bind (.ite (fun _ => .pure hc.chains ()) fun _ => ?_))
  exact hc.onFail (hc.throw stringArenaExceeded_regular) hcount

theorem stringArenaAlloc (hc : Storing Q) (text : List Byte) : Ends Q (Aivm.stringArenaAlloc env text) vm :=
  hc.bind (hc.stringArenaReserve _) fun _ _ => .get_bind (hc.modify_bind ⟨rfl, Nat.le_refl _⟩ (.pure hc.chains _))

theorem storeString (hc : Storing Q) (text : List Byte) : Ends Q (Aivm.storeString env text) vm :=
  hc.bind (hc.stringArenaAlloc _) fun _ _ => hc.modify_bind ⟨rfl, Nat.le_refl _⟩ (.pure hc.chains _)

theorem copyStringRangeToArena (hc : Storing Q) (text : List Byte) : Ends Q (Aivm.copyStringRangeToArena env text) vm := by
  refine .get_bind ?_
  cases lookupStringOffset vm text with
  | some offset => exact .pure hc.chains _
  | none => exact hc.storeString _

theorem copyStringSpliceToArena (hc : Storing Q) (text : List Byte) :
    Ends Q (Aivm.copyStringSpliceToArena env text) vm := by
  refine .get_bind ?_
  split
  · exact .pure hc.chains _
  · exact hc.storeString _

theorem copyStringToArena (hc : Storing Q) (p : StrPtr) : Ends Q (Aivm.copyStringToArena env p) vm :=
  .get_bind (.ite (fun _ => .giveUp hc.chains) fun _ => .ite (fun _ => .pure hc.chains _) fun _ =>
    hc.bind (.deref hc.chains _) fun _ _ => hc.copyStringRangeToArena _)

/-! ## Bytes -/

theorem growBytesArenaLimit (hc : Storing Q) (needed fuel : Nat) :
    ∀ {vm}, Ends Q (Aivm.growBytesArenaLimit env needed fuel) vm := by
  induction fuel with
  | zero =>
      intro vm
      exact .pure hc.chains ()
  | succ fuel ih =>
      intro vm
      exact .get_bind (.ite (fun _ => hc.bind (hc.admitHostMemoryGrowth _) fun _ _ =>
        hc.modify_bind ⟨rfl, Nat.le_refl _⟩ ih) fun _ => .pure hc.chains ())

theorem bytesArenaAlloc (hc : Storing Q) (data : List Byte) : Ends Q (Aivm.bytesArenaAlloc env data) vm := by
  have hcount : ∀ vm : Vm, vm.Quiet (countBytesArenaPressure vm) := fun _ => ⟨rfl, Nat.le_refl _⟩
  have hwrite : ∀ (b : BytesPtr) vm, Ends Q (VmM.modify (writeBytes data) >>= fun _ => Pure.pure b) vm := fun _ _ =>
    hc.modify_bind ⟨rfl, Nat.le_refl _⟩ (.pure hc.chains _)
  refine .get_bind (hc.bind (hc.onFail (hc.growBytesArenaLimit _ _) hcount) fun _ vm₁ => .get_bind ?_)
  exact .ite (fun _ => hc.bind (hc.onFail (hc.throw (.memory (by simp))) hcount) fun _ vm₂ => hwrite _ vm₂)
    fun _ => hwrite _ vm₁

theorem compactBytesArena (hc : Storing Q) : Ends Q (Aivm.compactBytesArena env) vm := by
  refine .get_bind (.ite (fun _ => .pure hc.chains ()) fun _ => .ite (fun _ => hc.modify ⟨rfl, Nat.le_refl _⟩) fun _ => ?_)
  refine hc.bind (hc.allocate (.memory (by simp))) fun _ vm₁ => ?_
  refine hc.bind (hc.lift fun _ => markLiveScratchPairHandles_fault) fun livePairs vm₂ => ?_
  refine .bind hc.chains (hc.lift fun _ => relocateBytes_fault) fun moved vm₃ h => ?_
  obtain ⟨hm, rfl⟩ := lift_ok.1 h
  exact hc.modify (relocateBytes_quiet hm)

/-! ## Roots -/

/-- A rewritten field that keeps the shape of what it holds. -/
theorem setField (hc : Storing Q) {e : Fault} {g : Vm → Option β} {set : β → Vm → Vm} (he : e.Regular)
    (h : ∀ b, g vm = some b → vm.Quiet (set b vm)) :
      Ends Q (VmM.updateOr e fun vm => (g vm).bind fun b => some (set b vm)) vm := by
  refine hc.updateOr he fun vm' hf => ?_
  obtain ⟨b, hb, hset⟩ := Option.bind_eq_some_iff.1 hf
  cases hset
  exact h b hb

theorem remapScratchPairs_length {capacity pairCount map livePairs} {pairs pairs' : List ScratchPair}
    (h : pairs.zipIdx.mapM (remapScratchPair capacity pairCount map livePairs) = some pairs') :
    pairs'.length = pairs.length := by
  simpa using (Unfold.mapM_eq_some.1 h).length_eq.symm

theorem remapRoots (hc : Storing Q) (map : Nat → Nat) (livePairs : List Nat) :
    Ends Q (Aivm.remapRoots map livePairs) vm := by
  have hvalue : ∀ {capacity pairCount} v w, remapValueNodeHandle capacity pairCount map v = some w → w.shape = v.shape :=
    fun _ _ => remapValueNodeHandle_shape
  have hregular : ∀ {text : String}, text.toList.head? = some 'I' → Fault.Regular ⟨.invalidProgram, text⟩ := fun h =>
    .of_head (by simp) h (by simp)
  refine hc.bind (hc.setField (hregular (by simp)) fun stack h => ⟨?_, Nat.le_refl _⟩) fun _ vm₁ => ?_
  · simp only [Vm.outside, mapM_shape hvalue h]
  refine hc.bind (hc.setField (hregular (by simp)) fun locals h => ⟨?_, Nat.le_refl _⟩) fun _ vm₂ => ?_
  · simp only [Vm.outside, mapM_shape hvalue h]
  refine hc.bind (hc.setField (hregular (by simp)) fun tasks h => ⟨?_, Nat.le_refl _⟩) fun _ vm₃ => ?_
  · have htask : tasks.map CompletedTask.shape = vm₂.completedTasks.map CompletedTask.shape := by
      refine mapM_shape (fun t t' ht => ?_) h
      obtain ⟨r, hr, rfl⟩ := Option.map_eq_some_iff.1 ht
      exact shape_result (remapValueNodeHandle_shape hr)
    simp only [Vm.outside, htask]
  refine hc.bind (hc.setField (hregular (by simp)) fun values h => ⟨?_, Nat.le_refl _⟩) fun _ vm₄ => ?_
  · simp only [Vm.outside, mapM_shape hvalue h]
  refine hc.bind (hc.setField (hregular (by simp)) fun pairs h => ⟨rfl, ?_⟩) fun _ vm₅ => ?_
  · exact Nat.le_of_eq (remapScratchPairs_length h)
  refine hc.bind (hc.setField (hregular (by simp)) fun builders h => ⟨?_, Nat.le_refl _⟩) fun _ vm₆ => ?_
  · have hbuilder : builders.map (Option.map NodeBuilderRecord.shape) =
        vm₅.nodeBuilders.map (Option.map NodeBuilderRecord.shape) := by
      refine mapM_shape (fun b b' hb => ?_) h
      cases b with
      | none =>
          cases hb
          rfl
      | some b =>
          obtain ⟨cs, -, rfl⟩ := Option.map_eq_some_iff.1 hb
          rfl
    simp only [Vm.outside, hbuilder]
  refine hc.bind (hc.setField (hregular (by simp)) fun _ _ => ⟨rfl, Nat.le_refl _⟩) fun _ vm₇ => ?_
  refine hc.bind (hc.setField (hregular (by simp)) fun _ _ => ⟨rfl, Nat.le_refl _⟩) fun _ vm₈ => ?_
  exact hc.setField (hregular (by simp)) fun _ _ => ⟨rfl, Nat.le_refl _⟩

theorem compactScratchPairs (hc : Storing Q) : Ends Q (Aivm.compactScratchPairs env) vm := by
  refine .get_bind (.ite (fun _ => .pure hc.chains ()) fun _ => .bind hc.chains (hc.allocate (.memory (by simp))) ?_)
  intro _ vm₁ ha
  cases Env.allocate_ok ha
  refine .bind hc.chains (hc.lift fun _ => markLiveScratchPairHandles_fault) fun livePairs vm₂ h => ?_
  obtain ⟨-, rfl⟩ := lift_ok.1 h
  exact hc.updateOr (.of_head (by simp) (c := 'I') (by simp) (by simp)) fun vm' h =>
    slideScratchPairs_quiet (livePairOrder_length _ livePairs) h

theorem compactNodeArenasWithMap (hc : Storing Q) (extra : List Nat) :
    Ends Q (Aivm.compactNodeArenasWithMap env extra) vm := by
  refine hc.modify_bind ⟨rfl, Nat.le_refl _⟩ (.get_bind (.ite (fun _ => .pure hc.chains _) fun _ => ?_))
  refine hc.bind (hc.allocate (.memory (by simp))) fun _ vm₁ => ?_
  refine hc.bind (hc.lift fun _ => markLiveNodeHandles_fault) fun live vm₂ => ?_
  refine hc.bind (hc.lift fun _ => markLiveScratchPairHandles_fault) fun livePairs vm₃ => ?_
  refine hc.bind (hc.lift fun _ => compactNodes_fault) fun arenas vm₄ => hc.modify_bind ⟨rfl, Nat.le_refl _⟩ ?_
  exact hc.bind (hc.remapRoots _ _) fun _ _ => .pure hc.chains _

/-! ## Safe points -/

theorem collectSafePointInternal (hc : Storing Q) (collectNodes collectBytes : Bool) :
    Ends Q (Aivm.collectSafePointInternal env collectNodes collectBytes) vm := by
  have hbytes : ∀ vm, Ends Q (if collectBytes = true then Aivm.compactBytesArena env else Pure.pure ()) vm := fun _ =>
    .ite (fun _ => hc.compactBytesArena) fun _ => .pure hc.chains ()
  have hrest : ∀ vm, Ends Q (if collectNodes = true then Aivm.compactScratchPairs env >>= fun _ =>
      Aivm.compactStringArena env >>= fun _ => if collectBytes = true then Aivm.compactBytesArena env else Pure.pure ()
      else if collectBytes = true then Aivm.compactBytesArena env else Pure.pure ()) vm := fun vm =>
    .ite (fun _ => hc.bind hc.compactScratchPairs fun _ _ => hc.bind hc.compactStringArena fun _ => hbytes)
      fun _ => hbytes vm
  refine .get_bind (.ite (fun _ => ?_) fun _ => hrest vm)
  exact hc.bind (hc.compactNodeArenasWithMap []) fun _ vm₁ => hc.modify_bind ⟨rfl, Nat.le_refl _⟩ (hrest _)

theorem collectSafePoint (hc : Storing Q) : Ends Q (Aivm.collectSafePoint env) vm := hc.collectSafePointInternal true true

/-! ## Nodes -/

theorem snapshotNodeInputString (hc : Storing Q) (p : StrPtr) : Ends Q (Aivm.snapshotNodeInputString env p) vm :=
  .get_bind (hc.bind (.deref hc.chains _) fun _ _ => hc.bind (hc.allocateIf (.memory (by simp))) fun _ _ =>
    .pure hc.chains _)

theorem snapshotNodeAttr (hc : Storing Q) (a : NodeAttr) : Ends Q (Aivm.snapshotNodeAttr env a) vm := by
  refine hc.bind (hc.snapshotNodeInputString _) fun key vm₁ => ?_
  cases a.value with
  | identifier p => exact hc.bind (hc.snapshotNodeInputString _) fun _ _ => .pure hc.chains _
  | string p => exact hc.bind (hc.snapshotNodeInputString _) fun _ _ => .pure hc.chains _
  | int i => exact .pure hc.chains _
  | bool b => exact .pure hc.chains _

theorem collectNodesFor (hc : Storing Q) {detail : String} (hd : Fault.Regular ⟨.invalidProgram, detail⟩)
    (children : ChildSource) : Ends Q (Aivm.collectNodesFor env detail children) vm := by
  refine hc.bind (hc.allocate (.memory (by simp))) fun _ vm₁ => .get_bind ?_
  refine hc.bind (hc.compactNodeArenasWithMap _) fun map vm₂ => .get_bind ?_
  split
  · exact hc.throw hd
  · exact hc.modify_bind ⟨rfl, Nat.le_refl _⟩ (.pure hc.chains _)

theorem collectProactively (hc : Storing Q) (a c : Nat) (children : ChildSource) :
    Ends Q (Aivm.collectProactively env a c children) vm := by
  refine .get_bind (.ite (fun _ => ?_) fun _ => .pure hc.chains _)
  refine .modify_bind hc.chains (hc.growNodeArenas _ _ _ vm) (.ite (fun _ => .pure hc.chains _) fun _ => ?_)
  exact hc.collectNodesFor (.of_head (by simp) (c := 'I') (by simp) (by simp)) _

theorem collectIfFull (hc : Storing Q) (a c : Nat) (children : ChildSource) :
    Ends Q (Aivm.collectIfFull env a c children) vm := by
  refine .get_bind (.ite (fun _ => ?_) fun _ => .pure hc.chains _)
  refine hc.bind (hc.collectNodesFor (.of_head (by simp) (c := 'I') (by simp) (by simp)) _) fun _ vm₁ =>
    .get_bind (.ite (fun _ => ?_) fun _ => .pure hc.chains _)
  exact hc.onFail (hc.throw (.memory (by simp))) fun _ => ⟨rfl, Nat.le_refl _⟩

theorem copyNodeAttr (hc : Storing Q) (a : List Byte × AttrMeaning) : Ends Q (Aivm.copyNodeAttr env a) vm := by
  refine hc.bind (hc.copyStringRangeToArena _) fun key vm₁ => ?_
  cases a.2 with
  | identifier t => exact hc.bind (hc.copyStringRangeToArena _) fun _ _ => .pure hc.chains _
  | string t => exact hc.bind (hc.copyStringRangeToArena _) fun _ _ => .pure hc.chains _
  | int i => exact .pure hc.chains _
  | bool b => exact .pure hc.chains _

theorem writeNode (hc : Storing Q) (kind id : List Byte) (attrs : List (List Byte × AttrMeaning))
    (children : ChildSource) : Ends Q (Aivm.writeNode env kind id attrs children) vm := by
  refine hc.bind (hc.copyStringRangeToArena _) fun p vm₁ => hc.bind (hc.copyStringRangeToArena _) fun q vm₂ => ?_
  refine hc.bind (.mapM hc.chains (fun a vm => hc.copyNodeAttr a) _) fun as vm₃ => .get_bind ?_
  exact hc.modify_bind ⟨rfl, Nat.le_refl _⟩ (.pure hc.chains _)

theorem createNodeRecord (hc : Storing Q) (kind id : StrPtr) (attrs : List NodeAttr) (children : ChildSource) :
    Ends Q (Aivm.createNodeRecord env kind id attrs children) vm := by
  refine .ite (fun _ => .giveUp hc.chains) fun _ => ?_
  refine hc.bind (hc.allocateIf (.memory (by simp))) fun _ vm₁ => .get_bind ?_
  refine hc.bind (hc.snapshotNodeInputString _) fun kind vm₂ => hc.bind (hc.snapshotNodeInputString _) fun id vm₃ => ?_
  refine hc.bind (.mapM hc.chains (fun a vm => hc.snapshotNodeAttr a) _) fun as vm₄ => ?_
  refine hc.bind (hc.stringArenaReserve _) fun _ vm₅ => ?_
  exact hc.bind (hc.collectProactively _ _ _) fun _ _ => hc.bind (hc.collectIfFull _ _ _) fun _ _ => hc.writeNode _ _ _ _

end Storing

namespace Ordinary

variable {env : Env} {Q : Vm → Vm → Prop} {vm vm' : Vm} {α β : Type}

/-! ## Copies between machines -/

theorem createScratchPair (hc : Ordinary Q) (first second : Value) : Ends Q (Aivm.createScratchPair first second) vm := by
  refine .get_bind (.ite (fun _ => hc.throw_bind (.memory (by simp)) _) fun h => ?_)
  exact .modify_bind hc.chains (hc.pair _ vm (by omega)) (.pure hc.chains _)

theorem boundaryFault_regular {detail : String} (h : detail.toList.head? = some 'A') : (boundaryFault detail).Regular :=
  .of_head (by simp) h (by simp)

theorem copyWorkerBoundaryChildren (hc : Ordinary Q) {src : Vm} {copy : Nat → BoundaryMaps → VmM (Nat × BoundaryMaps)}
    (hcopy : ∀ h maps vm, Ends Q (copy h maps) vm) :
    ∀ slots maps vm, Ends Q (Aivm.copyWorkerBoundaryChildren src copy slots maps) vm := by
  intro slots
  induction slots with
  | nil =>
      intro maps vm
      exact .pure hc.chains _
  | cons slot slots ih =>
      intro maps vm
      rw [Aivm.copyWorkerBoundaryChildren]
      cases src.nodeChildren[slot]? with
      | none => exact hc.throw (boundaryFault_regular (by simp))
      | some c => exact hc.bind (hcopy _ _ _) fun _ _ => hc.bind (ih _ _) fun _ _ => .pure hc.chains _

theorem copyWorkerBoundaryNode (hc : Ordinary Q) {src : Vm} (fuel : Nat) :
    ∀ h maps vm, Ends Q (Aivm.copyWorkerBoundaryNode env (vmStore env) src fuel h maps) vm := by
  induction fuel with
  | zero =>
      intro h maps vm
      exact hc.throw (boundaryFault_regular (by simp))
  | succ fuel ih =>
      intro h maps vm
      rw [Aivm.copyWorkerBoundaryNode]
      cases src.lookupNode h with
      | none => exact hc.throw (boundaryFault_regular (by simp))
      | some n =>
          cases maps.nodes.lookup h with
          | some k => exact .pure hc.chains _
          | none =>
              refine .ite (fun _ => hc.throw (boundaryFault_regular (by simp))) fun _ =>
                hc.bind (hc.allocate (.memory (by simp))) fun _ _ => ?_
              refine .ite (fun _ => hc.throw_bind (boundaryFault_regular (by simp)) _) fun _ => ?_
              refine hc.bind (hc.copyWorkerBoundaryChildren ih _ _ _) fun _ _ => ?_
              refine hc.bind (.deref hc.chains _) fun _ _ => hc.bind (.deref hc.chains _) fun _ _ => ?_
              refine hc.bind (.deref hc.chains _) fun _ _ => hc.bind (hc.createNodeRecord _ _ _ _) fun _ _ => ?_
              exact .pure hc.chains _

theorem copyWorkerBoundaryPair (hc : Ordinary Q) {src : Vm} {copy : Value → BoundaryMaps → VmM (Value × BoundaryMaps)}
    (hcopy : ∀ v maps vm, Ends Q (copy v maps) vm) (h : Nat) (maps : BoundaryMaps) :
    Ends Q (Aivm.copyWorkerBoundaryPair src copy h maps) vm := by
  unfold Aivm.copyWorkerBoundaryPair
  cases src.lookupScratchPair h with
  | none => exact hc.throw (boundaryFault_regular (by simp))
  | some p =>
      cases maps.pairs.lookup h with
      | some k => exact .pure hc.chains _
      | none =>
          refine .ite (fun _ => hc.throw (boundaryFault_regular (by simp))) fun _ => hc.bind (hcopy _ _ _) fun _ _ => ?_
          exact hc.bind (hcopy _ _ _) fun _ _ => hc.bind (hc.createScratchPair _ _) fun _ _ => .pure hc.chains _

theorem copyWorkerBoundaryValueWithContext (hc : Ordinary Q) {src : Vm} (fuel : Nat) : ∀ direction v maps vm,
    Ends Q (Aivm.copyWorkerBoundaryValueWithContext env (vmStore env) src fuel direction v maps) vm := by
  induction fuel with
  | zero =>
      intro direction v maps vm
      exact hc.throw (boundaryFault_regular (by simp))
  | succ fuel ih =>
      intro direction v maps vm
      cases v with
      | void => exact .pure hc.chains _
      | int i => exact .pure hc.chains _
      | number x => exact .pure hc.chains _
      | bool b => exact .pure hc.chains _
      | null => exact .pure hc.chains _
      | string p =>
          by_cases hp : p = .null
          · subst hp
            exact hc.throw (.of_head (by simp) (c := 'W') (by simp) (by simp))
          · rw [copyWorkerBoundaryValueWithContext_string hp]
            refine hc.bind (.deref hc.chains _) fun _ vm₁ => hc.bind ?_ fun _ _ => .pure hc.chains _
            exact .onFail hc.chains (hc.copyStringToArena _) fun vm' _ => hc.fault vm' (.memory (by simp))
      | bytes d n =>
          refine .ite (fun _ => hc.throw (.of_head (by simp) (c := 'W') (by simp) (by simp))) fun _ => ?_
          refine hc.bind (.deref hc.chains _) fun _ vm₁ => hc.bind ?_ fun _ _ => .pure hc.chains _
          exact .onFail hc.chains (hc.bytesArenaAlloc _) fun vm' _ => hc.fault vm' (.memory (by simp))
      | node h => exact hc.bind (hc.copyWorkerBoundaryNode _ _ _ _) fun _ _ => .pure hc.chains _
      | pair h => exact hc.bind (hc.copyWorkerBoundaryPair (ih _) _ _) fun _ _ => .pure hc.chains _
      | _ => exact hc.throw (boundaryFault_regular (by simp [toString]))

theorem copyWorkerBoundaryValue (hc : Ordinary Q) (src : Vm) (direction : String) (v : Value) :
    Ends Q (Aivm.copyWorkerBoundaryValue env src direction v) vm :=
  hc.bind (hc.allocate (.memory (by simp))) fun _ _ =>
    hc.bind (hc.copyWorkerBoundaryValueWithContext _ _ _ _ _) fun _ _ => .pure hc.chains _

/-! ## Stack and locals -/

theorem stackPush (hc : Ordinary Q) (v : Value) : Ends Q (Aivm.stackPush v) vm := by
  intro vm' h
  unfold Aivm.stackPush at h
  by_cases hroom : vm.stack.length + 1 ≤ (ensureStackCapacity (vm.stack.length + 1) vm).stackLimit
  · simp only [hroom, if_true, Outcome.state?, Option.some.injEq] at h
    subst h
    exact hc.chains.trans (hc.stackLimit _ vm) (hc.push v _ hroom)
  · simp only [hroom, if_false, Outcome.state?, Option.some.injEq] at h
    subst h
    exact hc.chains.trans (hc.stackLimit _ vm) (hc.fault _ (.of_head (by simp) (c := 'S') (by simp) (by simp)))

theorem stackPop (hc : Ordinary Q) : Ends Q Aivm.stackPop vm := by
  intro vm' h
  unfold Aivm.stackPop at h
  split at h
  · simp only [Outcome.state?, Option.some.injEq] at h
    exact h ▸ hc.fault vm (.of_head (by simp) (c := 'S') (by simp) (by simp))
  · simp only [Outcome.state?, Option.some.injEq] at h
    exact h ▸ hc.pop vm

theorem localOutOfRange_regular (opName : String) (index base : Nat) (vm : Vm) :
    (localOutOfRange opName index base vm).Regular :=
  .of_head (by simp) (c := 'I') (by simp [toString]) (by simp)

theorem localSet (hc : Ordinary Q) (index : Nat) (v : Value) : Ends Q (Aivm.localSet index v) vm := by
  refine .bind hc.chains (hc.validate _ vm) fun _ vm₁ h => ?_
  obtain ⟨rfl, -, -⟩ := validateCallLocalState_ok h
  refine .get_bind (.ite (fun _ => hc.throw_bind (localOutOfRange_regular _ _ _ _) _) fun _ => ?_)
  refine .modify_bind hc.chains (hc.localsLimit _ _) (.get_bind (.ite (fun _ => ?_) fun hlimit => ?_))
  · exact hc.throw_bind (localOutOfRange_regular _ _ _ _) _
  · exact .modify (hc.store _ v _ (Nat.le_add_right _ index) (by omega))

/-! ## Routines -/

theorem claim (hc : Ordinary Q) (what : String) : Ends Q (VmM.claim env what) vm := by
  intro vm' h
  unfold VmM.claim at h
  split at h
  · simp only [Outcome.state?, Option.some.injEq] at h
    exact h ▸ hc.chains.refl vm
  · simp only [Outcome.state?, Option.some.injEq] at h
    exact h ▸ hc.chains.refl vm

theorem orFault (hc : Ordinary Q) {f : Fault} (hf : f.Regular) {x : VmM α} (hx : Ends Q x vm) :
    Ends Q (VmM.orFault f x) vm := by
  refine .onFail hc.chains hx fun vm' _ => ?_
  split
  · exact hc.chains.refl _
  · exact hc.fault _ hf

theorem override (hc : Ordinary Q) {f : Fault} (hf : f.Regular) {x : VmM α} (hx : Ends Q x vm) :
    Ends Q (VmM.override f x) vm := .onFail hc.chains hx fun vm' _ => hc.fault vm' hf

theorem pushConstant (hc : Ordinary Q) (index : Nat) : Ends Q (VmM.pushConstant index) vm := by
  refine .get_bind ?_
  cases vm.program.constants[index]? with
  | none => exact hc.throw (.of_head (by simp) (c := 'I') (by simp) (by simp))
  | some v => exact hc.stackPush v

theorem loadLocal (hc : Ordinary Q) (index : Nat) : Ends Q (VmM.loadLocal index) vm := by
  refine .get_bind ?_
  cases localGet vm index with
  | none => exact hc.throw (localOutOfRange_regular _ _ _ _)
  | some v => exact hc.stackPush v

theorem storePair (hc : Ordinary Q) : Ends Q VmM.storePair vm :=
  hc.bind hc.stackPop fun _ _ => hc.bind hc.stackPop fun _ _ => hc.bind (hc.createScratchPair _ _) fun _ _ =>
    hc.stackPush _

theorem loadPair (hc : Ordinary Q) (handle : Nat) (component : ScratchPair → Value) :
    Ends Q (VmM.loadPair handle component) vm := by
  refine .get_bind ?_
  cases vm.lookupScratchPair handle with
  | none => exact .giveUp hc.chains
  | some p => exact hc.stackPush _

theorem copyRange (hc : Ordinary Q) (p : StrPtr) (length : Nat) : Ends Q (VmM.copyRange env p length) vm :=
  .get_bind (hc.bind (.deref hc.chains _) fun _ _ => .ite
    (fun _ => hc.bind (hc.claim _) fun _ _ => hc.copyStringRangeToArena _) fun _ => hc.copyStringRangeToArena _)

theorem copySplice (hc : Ordinary Q) (p : StrPtr) (m : Nat) (q : StrPtr) (n : Nat) :
    Ends Q (VmM.copySplice env p m q n) vm := by
  refine .get_bind (hc.bind (.deref hc.chains _) fun first vm₁ => hc.bind (.deref hc.chains _) fun second vm₂ => ?_)
  have hlast : ∀ vm, Ends Q (Aivm.copyStringSpliceToArena env (first.take m ++ second.take n)) vm := fun _ =>
    hc.copyStringSpliceToArena _
  refine .ite (fun _ => .ite (fun _ => hc.bind (hc.claim _) fun _ vm₃ => ?_) fun _ => ?_) fun _ => hlast vm₂
  · exact .ite (fun _ => hc.bind (hc.claim _) fun _ => hlast) fun _ => hlast vm₃
  · exact .ite (fun _ => hc.bind (hc.claim _) fun _ => hlast) fun _ => hlast vm₂

/-- What an ordinary instruction is built from stays within the relation, and so does the instruction. -/
theorem built (hc : Ordinary Q) {x : VmM α} (h : Built env x) : ∀ {vm}, Ends Q x vm := by
  induction h with
  | pure a => exact .pure hc.chains a
  | bind _ _ hx hf => exact hc.bind hx fun a _ => hf a
  | look => exact .get_bind (.pure hc.chains _)
  | deref x => exact .deref hc.chains x
  | throw hf => exact hc.throw hf
  | giveUp => exact .giveUp hc.chains
  | orFault hf _ hx => exact hc.orFault hf hx
  | override hf _ hx => exact hc.override hf hx
  | claim what => exact hc.claim what
  | pop => exact hc.stackPop
  | push _ => exact hc.stackPush _
  | pushConstant index => exact hc.pushConstant index
  | storeLocal index => exact hc.bind hc.stackPop fun _ _ => hc.localSet _ _
  | loadLocal index => exact hc.loadLocal index
  | storePair => exact hc.storePair
  | loadFirst handle => exact hc.loadPair handle _
  | loadSecond handle => exact hc.loadPair handle _
  | safePoint => exact hc.collectSafePoint
  | createNode kind id attrs children => exact hc.createNodeRecord kind id attrs children
  | copyString p => exact hc.copyStringToArena p
  | copyRange p length => exact hc.copyRange p length
  | copySplice p m q n => exact hc.copySplice p m q n
  | allocString text => exact hc.stringArenaAlloc text
  | allocBytes data => exact hc.bytesArenaAlloc data
  | admitGrowth growth => exact hc.admitHostMemoryGrowth growth
  | byteOffset p rune =>
      intro vm
      exact .get_bind (hc.bind (.deref hc.chains _) fun _ _ => hc.modify_bind ⟨rfl, Nat.le_refl _⟩ (.pure hc.chains _))
  | putNodeBuilder slot b => exact .modify (hc.builder slot b _)
  | putMap slot m => exact .modify (hc.map slot m _)

theorem routine (hc : Ordinary Q) (r : Routine env α) : Ends Q r.run vm := hc.built r.built

end Ordinary

/-! ## What ordinary instructions leave alone -/

/-- The parts of a machine that only control instructions, tasks, workers and parallel blocks change. -/
def Vm.aside (vm : Vm) : Vm :=
  { vm.outside with
    stack := []
    stackLimit := 0
    locals := []
    localsLimit := 0
    status := .ready
    error := .none
    errorDetail := ""
    nodeBuilders := []
    maps := [] }

/-- None of these parts has changed. -/
def Vm.Untouched (vm vm' : Vm) : Prop := vm'.aside = vm.aside

namespace Vm.Untouched

variable {vm vm' : Vm}

theorem chains : Chains Vm.Untouched := ⟨fun _ => rfl, fun h h' => h'.trans h⟩

theorem of_quiet (h : vm.Quiet vm') : vm.Untouched vm' := by
  have ha := congrArg (fun o : Vm => { o with
    stack := [], stackLimit := 0, locals := [], localsLimit := 0, status := .ready, error := .none, errorDetail := ""
    nodeBuilders := [], maps := [] }) h.outside
  exact ha

theorem program (h : vm.Untouched vm') : vm'.program = vm.program := by
  have ha := congrArg Vm.program h
  exact ha

theorem instructionPointer (h : vm.Untouched vm') : vm'.instructionPointer = vm.instructionPointer := by
  have ha := congrArg Vm.instructionPointer h
  exact ha

theorem callFrames (h : vm.Untouched vm') : vm'.callFrames = vm.callFrames := by
  have ha := congrArg Vm.callFrames h
  exact ha

theorem tasks (h : vm.Untouched vm') :
    vm'.completedTasks.map CompletedTask.shape = vm.completedTasks.map CompletedTask.shape :=
  congrArg Vm.completedTasks h

theorem ordinary : Ordinary Vm.Untouched where
  chains := chains
  quiet := of_quiet
  fault _ _ := rfl
  pair _ _ _ := rfl
  stackLimit _ _ := rfl
  push _ _ _ := rfl
  pop _ := rfl
  validate := validateCallLocalState_ends chains fun _ _ => rfl
  localsLimit _ _ := rfl
  store index v vm _ _ := by
    unfold writeLocal
    split <;> rfl
  builder _ _ _ := rfl
  map _ _ _ := rfl

end Vm.Untouched

end Aivm
