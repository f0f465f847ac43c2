import Aivm.Gc.Lemmas.BytesCompaction
import Aivm.Gc.Lemmas.PairCompaction
import Aivm.Machine.Lemmas.Text
import Aivm.Model.Ends
import Aivm.Nodes.Lemmas.Create
import Aivm.Workers.Lemmas.BoundaryCopy

/-!
# What the stores do to texts and nodes

The operations of the stores, whether they succeed or fail, change the string arena, its index, the remembered position
and the node records in a few ways only. A relation between states that admits these ways, and any change elsewhere,
holds across every operation.
-/

namespace Aivm

open VmM

/-- The string arena, its index, the remembered position and the node records are the same. -/
def Vm.SameTexts (vm vm' : Vm) : Prop :=
  vm'.stringArena = vm.stringArena ∧ vm'.stringBlock = vm.stringBlock ∧ vm'.stringIntern = vm.stringIntern ∧
    vm'.utf8OffsetCache = vm.utf8OffsetCache ∧ vm'.nodes = vm.nodes

/-- A relation that admits all that is done to texts and nodes. -/
structure Closed (env : Env) (Q : Vm → Vm → Prop) : Prop where
  chains : Chains Q
  same : ∀ {vm vm'}, vm.SameTexts vm' → Q vm vm'
  compact : ∀ {vm vm'}, compactStringArena env vm = .ok () vm' → Q vm vm'
  write : ∀ text vm, Q vm (writeString text vm)
  store : ∀ {text : List Byte} vm, (0 : Byte) ∉ text → Q vm (rememberString env text (writeString text vm))
  byteOffset : ∀ p rune vm, Ends Q (utf8ByteOffsetForRune p rune) vm
  install : ∀ {map order vm arenas}, compactNodes vm map order ⟨[], [], []⟩ = .ok arenas → Q vm (installArenas arenas vm)
  append : ∀ {kind id : StrPtr} attrs children vm, kind ≠ .null → id ≠ .null → Q vm (appendNode kind id attrs children vm)

/-- An operation that fails only by setting an error. -/
theorem bind_fail {α β : Type} {x : VmM α} {f : α → VmM β} {vm vm' : Vm} :
    (x >>= f) vm = .fail vm' ↔ x vm = .fail vm' ∨ ∃ a vm₁, x vm = .ok a vm₁ ∧ f a vm₁ = .fail vm' := by
  rw [bind_run]
  cases x vm with
  | ok a vm₁ => simp
  | fail vm₁ => simp
  | undefined => simp

theorem allocate_fail {env : Env} {detail : String} {vm vm' : Vm} (h : env.allocate detail vm = .fail vm') :
    vm' = VmM.setVmError ⟨.memoryPressure, detail⟩ vm := by
  unfold Env.allocate at h
  split at h
  · cases h
  · cases h
    rfl

theorem lift_fail {α : Type} {f : Vm → Except Fault α} {vm vm' : Vm} (h : VmM.lift f vm = .fail vm') :
    ∃ e, f vm = .error e ∧ vm' = VmM.setVmError e vm := by
  unfold VmM.lift at h
  split at h
  · cases h
  · rename_i e he
    cases h
    exact ⟨e, he, rfl⟩

/-- A string compaction that fails has only set an error. -/
theorem compactStringArena_fail {env : Env} {vm vm' : Vm} (h : compactStringArena env vm = .fail vm') :
    ∃ e, vm' = VmM.setVmError e vm := by
  simp only [compactStringArena, bind_fail, get_run, reduceCtorEq, false_or, Outcome.ok.injEq] at h
  obtain ⟨_, _, ⟨rfl, rfl⟩, h⟩ := h
  split at h
  · cases h
  simp only [bind_fail] at h
  obtain h | ⟨_, _, ha, h⟩ := h
  · exact ⟨_, allocate_fail h⟩
  rw [Env.allocate_ok ha] at h
  obtain h | ⟨_, _, hl, h⟩ := h
  · obtain ⟨e, -, rfl⟩ := lift_fail h
    exact ⟨e, rfl⟩
  obtain ⟨-, rfl⟩ := lift_ok.1 hl
  obtain h | ⟨_, _, hl, h⟩ := h
  · obtain ⟨e, -, rfl⟩ := lift_fail h
    exact ⟨e, rfl⟩
  obtain ⟨-, rfl⟩ := lift_ok.1 hl
  obtain h | ⟨_, _, hl, h⟩ := h
  · obtain ⟨e, -, rfl⟩ := lift_fail h
    exact ⟨e, rfl⟩
  · simp at h

namespace Closed

variable {env : Env} {Q : Vm → Vm → Prop} {vm vm' : Vm} {α : Type}

theorem setVmError (hc : Closed env Q) (f : Fault) (vm : Vm) : Q vm (VmM.setVmError f vm) :=
  hc.same ⟨rfl, rfl, rfl, rfl, rfl⟩

theorem throw (hc : Closed env Q) (f : Fault) : Ends Q (VmM.throw f : VmM α) vm := .throw (hc.setVmError f vm)

theorem throw_bind (hc : Closed env Q) {β : Type} (f : Fault) (g : α → VmM β) : Ends Q (VmM.throw f >>= g) vm := by
  refine .of_cases (fun b vm' h => ?_) fun vm' h => ?_
  · simp [bind_ok] at h
  · simp only [bind_fail, throw_run, Outcome.fail.injEq, reduceCtorEq, false_and, exists_false, or_false] at h
    exact h ▸ hc.setVmError f vm

theorem modify (hc : Closed env Q) {f : Vm → Vm} (h : vm.SameTexts (f vm)) : Ends Q (VmM.modify f) vm :=
  .modify (hc.same h)

theorem modify_bind (hc : Closed env Q) {β : Type} {g : Vm → Vm} {f : Unit → VmM β} (h : vm.SameTexts (g vm))
    (hf : Ends Q (f ()) (g vm)) : Ends Q (VmM.modify g >>= f) vm := .modify_bind hc.chains (hc.same h) hf

theorem lift (hc : Closed env Q) {f : Vm → Except Fault α} : Ends Q (VmM.lift f) vm :=
  .lift hc.chains fun e _ => hc.setVmError e vm

theorem allocate (hc : Closed env Q) (detail : String) : Ends Q (env.allocate detail) vm :=
  .allocate hc.chains (hc.setVmError _ vm)

theorem allocateIf (hc : Closed env Q) (needed : Bool) (detail : String) : Ends Q (env.allocateIf needed detail) vm :=
  .allocateIf hc.chains (hc.setVmError _ vm)

/-- An operation that rewrites other parts of the state, or fails. -/
theorem updateOr (hc : Closed env Q) {e : Fault} {f : Vm → Option Vm} (h : ∀ vm', f vm = some vm' → vm.SameTexts vm') :
    Ends Q (VmM.updateOr e f) vm := .updateOr (fun vm' hf => hc.same (h vm' hf)) (hc.setVmError e vm)

theorem onFail (hc : Closed env Q) {f : Vm → Vm} {x : VmM α} (hx : Ends Q x vm) (hf : ∀ vm : Vm, vm.SameTexts (f vm)) :
    Ends Q (VmM.onFail f x) vm := .onFail hc.chains hx fun vm' _ => hc.same (hf vm')

theorem bind (hc : Closed env Q) {β : Type} {x : VmM α} {f : α → VmM β} (hx : Ends Q x vm)
    (hf : ∀ a vm₁, Ends Q (f a) vm₁) : Ends Q (x >>= f) vm := .bind hc.chains hx fun a vm₁ _ => hf a vm₁

/-! ## Growth -/

theorem stringLimit (hc : Closed env Q) (h : vm.StringLimitGrown vm') : Q vm vm' := by
  rw [h]
  exact hc.same ⟨rfl, rfl, rfl, rfl, rfl⟩

theorem askHostMemory (hc : Closed env Q) (growth : Nat) (vm : Vm) : Q vm (Aivm.askHostMemory env growth vm).2 := by
  rw [askHostMemory_grown]
  exact hc.same ⟨rfl, rfl, rfl, rfl, rfl⟩

theorem tryGrowNodeArenas (hc : Closed env Q) (n a c : Nat) (vm : Vm) : Q vm (Aivm.tryGrowNodeArenas env n a c vm).2 := by
  obtain ⟨_, _, _, _, h⟩ := tryGrowNodeArenas_grown env n a c vm
  rw [h]
  exact hc.same ⟨rfl, rfl, rfl, rfl, rfl⟩

theorem admitHostMemoryGrowth (hc : Closed env Q) (growth : Nat) : Ends Q (Aivm.admitHostMemoryGrowth env growth) vm := by
  have hask := hc.askHostMemory growth vm
  refine .of_cases (fun a vm' h => ?_) fun vm' h => ?_
  · rw [admitHostMemoryGrowth_ok h]
    exact hc.same ⟨rfl, rfl, rfl, rfl, rfl⟩
  · unfold Aivm.admitHostMemoryGrowth at h
    split at h
    · split at h
      · cases h
      · rename_i vm₁ he
        cases h
        rw [he] at hask
        exact hc.chains.trans hask (hc.setVmError _ _)
    · cases h

/-! ## Strings -/

theorem compactStringArena (hc : Closed env Q) : Ends Q (Aivm.compactStringArena env) vm := by
  refine .of_cases (fun a vm' h => hc.compact h) fun vm' h => ?_
  obtain ⟨e, rfl⟩ := compactStringArena_fail h
  exact hc.setVmError e vm

theorem stringArenaReserve (hc : Closed env Q) (additional : Nat) : Ends Q (Aivm.stringArenaReserve env additional) vm := by
  have hgrow : ∀ needed (vm : Vm), Q vm (ensureStringArenaCapacity env needed vm) := fun needed vm =>
    hc.stringLimit (ensureStringArenaCapacity_grown env needed vm)
  have hcount : ∀ vm : Vm, vm.SameTexts (countStringArenaPressure vm) := fun _ => ⟨rfl, rfl, rfl, rfl, rfl⟩
  refine .modify_bind hc.chains (hgrow _ vm) (.get_bind ?_)
  split
  · exact .pure hc.chains ()
  refine hc.bind (hc.onFail hc.compactStringArena hcount) fun _ vm₁ =>
    .modify_bind hc.chains (hgrow _ vm₁) (.get_bind ?_)
  split
  · exact .pure hc.chains ()
  · exact hc.onFail (hc.throw _) hcount

theorem stringArenaAlloc (hc : Closed env Q) (text : List Byte) : Ends Q (Aivm.stringArenaAlloc env text) vm :=
  hc.bind (hc.stringArenaReserve _) fun _ vm₁ =>
    .get_bind (.modify_bind hc.chains (hc.write text vm₁) (.pure hc.chains _))

/-- Room is made, and then the string is written and entered into the index. -/
theorem storeString_eq (text : List Byte) : Aivm.storeString env text = (do
    Aivm.stringArenaReserve env (text.length + 1)
    let vm ← VmM.get
    VmM.modify fun vm => rememberString env text (writeString text vm)
    return .arena vm.stringBlock vm.stringArena.length) := by
  funext vm
  simp only [Aivm.storeString, Aivm.stringArenaAlloc, bind_run]
  cases Aivm.stringArenaReserve env (text.length + 1) vm <;> rfl

theorem storeString (hc : Closed env Q) {text : List Byte} (ht : (0 : Byte) ∉ text) :
    Ends Q (Aivm.storeString env text) vm := by
  rw [storeString_eq]
  exact hc.bind (hc.stringArenaReserve _) fun _ vm₁ =>
    .get_bind (.modify_bind hc.chains (hc.store vm₁ ht) (.pure hc.chains _))

theorem copyStringRangeToArena (hc : Closed env Q) {text : List Byte} (ht : (0 : Byte) ∉ text) :
    Ends Q (Aivm.copyStringRangeToArena env text) vm := by
  refine .get_bind ?_
  split
  · exact .pure hc.chains _
  · exact hc.storeString ht

theorem copyStringSpliceToArena (hc : Closed env Q) {text : List Byte} (ht : (0 : Byte) ∉ text) :
    Ends Q (Aivm.copyStringSpliceToArena env text) vm := by
  refine .get_bind ?_
  split
  · exact .pure hc.chains _
  · exact hc.storeString ht


/-- A string that has been read can be copied. -/
theorem deref_cstr (hc : Closed env Q) {p : StrPtr} {f : List Byte → VmM α}
    (hf : ∀ text, vm.cstr p = some text → Ends Q (f text) vm) : Ends Q (VmM.deref (vm.cstr p) >>= f) vm := by
  refine .bind hc.chains (.deref hc.chains _) fun text vm₁ h => ?_
  obtain ⟨htext, rfl⟩ := deref_ok.1 h
  exact hf text htext

theorem copyStringToArena (hc : Closed env Q) (p : StrPtr) : Ends Q (Aivm.copyStringToArena env p) vm := by
  refine .get_bind ?_
  split
  · exact .giveUp hc.chains
  split
  · exact .pure hc.chains _
  · exact hc.deref_cstr fun text htext => hc.copyStringRangeToArena (zero_notMem_of_cstr htext)

/-! ## Bytes -/

theorem growBytesArenaLimit (hc : Closed env Q) (needed fuel : Nat) :
    ∀ {vm}, Ends Q (Aivm.growBytesArenaLimit env needed fuel) vm := by
  induction fuel with
  | zero =>
      intro vm
      exact .pure hc.chains ()
  | succ fuel ih =>
      intro vm
      refine .get_bind ?_
      split
      · exact hc.bind (hc.admitHostMemoryGrowth _) fun _ vm₁ => hc.modify_bind ⟨rfl, rfl, rfl, rfl, rfl⟩ ih
      · exact .pure hc.chains ()

theorem bytesArenaAlloc (hc : Closed env Q) (data : List Byte) : Ends Q (Aivm.bytesArenaAlloc env data) vm := by
  have hcount : ∀ vm : Vm, vm.SameTexts (countBytesArenaPressure vm) := fun _ => ⟨rfl, rfl, rfl, rfl, rfl⟩
  refine .get_bind (hc.bind (hc.onFail (hc.growBytesArenaLimit _ _) hcount) fun _ vm₁ => .get_bind ?_)
  split
  · exact hc.bind (hc.onFail (hc.throw _) hcount) fun _ vm₂ =>
      hc.modify_bind ⟨rfl, rfl, rfl, rfl, rfl⟩ (.pure hc.chains _)
  · exact hc.modify_bind ⟨rfl, rfl, rfl, rfl, rfl⟩ (.pure hc.chains _)

theorem compactBytesArena (hc : Closed env Q) : Ends Q (Aivm.compactBytesArena env) vm := by
  refine .get_bind ?_
  split
  · exact .pure hc.chains ()
  split
  · exact hc.modify ⟨rfl, rfl, rfl, rfl, rfl⟩
  refine hc.bind (hc.allocate _) fun _ vm₁ => hc.bind hc.lift fun livePairs vm₂ => ?_
  refine .bind hc.chains hc.lift fun moved vm₃ h => hc.modify ?_
  obtain ⟨hm, rfl⟩ := lift_ok.1 h
  rw [(relocateBytes_ok hm).frame]
  exact ⟨rfl, rfl, rfl, rfl, rfl⟩

/-! ## Roots -/

/-- A rewritten field that is neither a text nor a node. -/
theorem setField (hc : Closed env Q) {β : Type} {e : Fault} {g : Vm → Option β} {set : β → Vm → Vm}
    (h : ∀ b (vm : Vm), vm.SameTexts (set b vm)) : Ends Q (VmM.updateOr e fun vm => (g vm).bind fun b => some (set b vm)) vm := by
  refine hc.updateOr fun vm' hf => ?_
  obtain ⟨b, -, hb⟩ := Option.bind_eq_some_iff.1 hf
  cases hb
  exact h b vm

theorem remapRoots (hc : Closed env Q) (map : Nat → Nat) (livePairs : List Nat) :
    Ends Q (Aivm.remapRoots map livePairs) vm := by
  refine hc.bind (hc.setField fun _ _ => ⟨rfl, rfl, rfl, rfl, rfl⟩) fun _ _ => ?_
  refine hc.bind (hc.setField fun _ _ => ⟨rfl, rfl, rfl, rfl, rfl⟩) fun _ _ => ?_
  refine hc.bind (hc.setField fun _ _ => ⟨rfl, rfl, rfl, rfl, rfl⟩) fun _ _ => ?_
  refine hc.bind (hc.setField fun _ _ => ⟨rfl, rfl, rfl, rfl, rfl⟩) fun _ _ => ?_
  refine hc.bind (hc.setField fun _ _ => ⟨rfl, rfl, rfl, rfl, rfl⟩) fun _ _ => ?_
  refine hc.bind (hc.setField fun _ _ => ⟨rfl, rfl, rfl, rfl, rfl⟩) fun _ _ => ?_
  refine hc.bind (hc.setField fun _ _ => ⟨rfl, rfl, rfl, rfl, rfl⟩) fun _ _ => ?_
  refine hc.bind (hc.setField fun _ _ => ⟨rfl, rfl, rfl, rfl, rfl⟩) fun _ _ => ?_
  exact hc.setField fun _ _ => ⟨rfl, rfl, rfl, rfl, rfl⟩

theorem compactScratchPairs (hc : Closed env Q) : Ends Q (Aivm.compactScratchPairs env) vm := by
  refine .get_bind ?_
  split
  · exact .pure hc.chains ()
  refine hc.bind (hc.allocate _) fun _ vm₁ => hc.bind hc.lift fun livePairs vm₂ => hc.updateOr fun vm' h => ?_
  have hslid : PairsSlid _ vm₂ vm' := slideScratchPairs_ok h
  rw [hslid.frame]
  exact ⟨rfl, rfl, rfl, rfl, rfl⟩

theorem compactNodeArenasWithMap (hc : Closed env Q) (extra : List Nat) :
    Ends Q (Aivm.compactNodeArenasWithMap env extra) vm := by
  refine hc.modify_bind ⟨rfl, rfl, rfl, rfl, rfl⟩ (.get_bind ?_)
  split
  · exact .pure hc.chains _
  refine hc.bind (hc.allocate _) fun _ vm₁ => hc.bind hc.lift fun live vm₂ => hc.bind hc.lift fun livePairs vm₃ => ?_
  refine .bind hc.chains hc.lift fun arenas vm₄ h => ?_
  obtain ⟨ha, rfl⟩ := lift_ok.1 h
  exact .modify_bind hc.chains (hc.install ha) (hc.bind (hc.remapRoots _ _) fun _ _ => .pure hc.chains _)

/-! ## Safe points -/

theorem collectSafePointInternal (hc : Closed env Q) (collectNodes collectBytes : Bool) :
    Ends Q (Aivm.collectSafePointInternal env collectNodes collectBytes) vm := by
  have hbytes : ∀ vm, Ends Q (if collectBytes = true then Aivm.compactBytesArena env else Pure.pure ()) vm := fun _ =>
    .ite (fun _ => hc.compactBytesArena) fun _ => .pure hc.chains ()
  have hrest : ∀ vm, Ends Q (if collectNodes = true then Aivm.compactScratchPairs env >>= fun _ =>
      Aivm.compactStringArena env >>= fun _ => if collectBytes = true then Aivm.compactBytesArena env else Pure.pure ()
      else if collectBytes = true then Aivm.compactBytesArena env else Pure.pure ()) vm := fun vm =>
    .ite (fun _ => hc.bind hc.compactScratchPairs fun _ _ => hc.bind hc.compactStringArena fun _ => hbytes)
      fun _ => hbytes vm
  refine .get_bind (.ite (fun _ => ?_) fun _ => hrest vm)
  exact hc.bind (hc.compactNodeArenasWithMap []) fun _ vm₁ => hc.modify_bind ⟨rfl, rfl, rfl, rfl, rfl⟩ (hrest _)

theorem collectSafePoint (hc : Closed env Q) : Ends Q (Aivm.collectSafePoint env) vm := hc.collectSafePointInternal true true

/-! ## Nodes -/

theorem snapshotNodeInputString (hc : Closed env Q) (p : StrPtr) : Ends Q (Aivm.snapshotNodeInputString env p) vm :=
  .get_bind (hc.bind (.deref hc.chains _) fun _ _ => hc.bind (hc.allocateIf _ _) fun _ _ => .pure hc.chains _)

/-- A string set aside is the text of a string. -/
theorem snapshotNodeInputString_clean {p : StrPtr} {text} (h : Aivm.snapshotNodeInputString env p vm = .ok text vm') :
    (0 : Byte) ∉ text := by
  simp only [Aivm.snapshotNodeInputString, bind_ok, get_run, deref_ok, pure_run, Outcome.ok.injEq] at h
  obtain ⟨_, _, ⟨rfl, rfl⟩, _, _, ⟨htext, rfl⟩, _, _, _, rfl, rfl⟩ := h
  exact zero_notMem_of_cstr htext

/-- The texts of an attribute that has been set aside. -/
def AttrClean (a : List Byte × AttrMeaning) : Prop :=
  (0 : Byte) ∉ a.1 ∧ (∀ t, a.2 = .identifier t → (0 : Byte) ∉ t) ∧ ∀ t, a.2 = .string t → (0 : Byte) ∉ t

theorem snapshotNodeAttr (hc : Closed env Q) (a : NodeAttr) : Ends Q (Aivm.snapshotNodeAttr env a) vm := by
  refine hc.bind (hc.snapshotNodeInputString _) fun key vm₁ => ?_
  cases a.value with
  | identifier p => exact hc.bind (hc.snapshotNodeInputString _) fun _ _ => .pure hc.chains _
  | string p => exact hc.bind (hc.snapshotNodeInputString _) fun _ _ => .pure hc.chains _
  | int i => exact .pure hc.chains _
  | bool b => exact .pure hc.chains _

theorem snapshotNodeAttr_clean {a : NodeAttr} {b} (h : Aivm.snapshotNodeAttr env a vm = .ok b vm') : AttrClean b := by
  obtain ⟨key, vm₁, hkey, h⟩ := bind_ok.1 h
  have hkey := snapshotNodeInputString_clean hkey
  cases hv : a.value with
  | identifier p =>
      simp only [hv, bind_ok, pure_run, Outcome.ok.injEq] at h
      obtain ⟨t, _, ht, rfl, _⟩ := h
      have ht := snapshotNodeInputString_clean ht
      exact ⟨hkey, by simpa using ht, by simp⟩
  | string p =>
      simp only [hv, bind_ok, pure_run, Outcome.ok.injEq] at h
      obtain ⟨t, _, ht, rfl, _⟩ := h
      have ht := snapshotNodeInputString_clean ht
      exact ⟨hkey, by simp, by simpa using ht⟩
  | int i =>
      simp only [hv, pure_run, Outcome.ok.injEq] at h
      obtain ⟨rfl, _⟩ := h
      exact ⟨hkey, by simp, by simp⟩
  | bool b =>
      simp only [hv, pure_run, Outcome.ok.injEq] at h
      obtain ⟨rfl, _⟩ := h
      exact ⟨hkey, by simp, by simp⟩

theorem collectNodesFor (hc : Closed env Q) (detail : String) (children : ChildSource) :
    Ends Q (Aivm.collectNodesFor env detail children) vm := by
  refine hc.bind (hc.allocate _) fun _ vm₁ => .get_bind ?_
  refine hc.bind (hc.compactNodeArenasWithMap _) fun map vm₂ => .get_bind ?_
  split
  · exact hc.throw _
  · exact hc.modify_bind ⟨rfl, rfl, rfl, rfl, rfl⟩ (.pure hc.chains _)

theorem collectProactively (hc : Closed env Q) (a c : Nat) (children : ChildSource) :
    Ends Q (Aivm.collectProactively env a c children) vm := by
  refine .get_bind (.ite (fun _ => ?_) fun _ => .pure hc.chains _)
  refine .modify_bind hc.chains (hc.tryGrowNodeArenas _ _ _ vm) (.ite (fun _ => .pure hc.chains _) fun _ => ?_)
  exact hc.collectNodesFor _ _

theorem collectIfFull (hc : Closed env Q) (a c : Nat) (children : ChildSource) :
    Ends Q (Aivm.collectIfFull env a c children) vm := by
  refine .get_bind (.ite (fun _ => ?_) fun _ => .pure hc.chains _)
  refine hc.bind (hc.collectNodesFor _ _) fun _ vm₁ => .get_bind (.ite (fun _ => ?_) fun _ => .pure hc.chains _)
  exact hc.onFail (hc.throw _) fun _ => ⟨rfl, rfl, rfl, rfl, rfl⟩

theorem copyNodeAttr (hc : Closed env Q) {a : List Byte × AttrMeaning} (ha : AttrClean a) :
    Ends Q (Aivm.copyNodeAttr env a) vm := by
  refine hc.bind (hc.copyStringRangeToArena ha.1) fun key vm₁ => ?_
  cases hv : a.2 with
  | identifier t => exact hc.bind (hc.copyStringRangeToArena (ha.2.1 t hv)) fun _ _ => .pure hc.chains _
  | string t => exact hc.bind (hc.copyStringRangeToArena (ha.2.2 t hv)) fun _ _ => .pure hc.chains _
  | int i => exact .pure hc.chains _
  | bool b => exact .pure hc.chains _

/-- A copy is never a null pointer. -/
theorem copyStringRangeToArena_ne_null {text : List Byte} {p : StrPtr}
    (h : Aivm.copyStringRangeToArena env text vm = .ok p vm') : p ≠ .null := by
  obtain ⟨_, _, hget, h⟩ := bind_ok.1 h
  cases hget
  cases ho : lookupStringOffset vm text with
  | some offset =>
      rw [ho] at h
      cases h
      simp
  | none =>
      rw [ho] at h
      simp only [storeString_eq, bind_ok, get_run, modify_run, pure_run, Outcome.ok.injEq] at h
      obtain ⟨_, _, _, _, _, ⟨rfl, rfl⟩, _, _, _, rfl, _⟩ := h
      simp

theorem mapM_copyNodeAttr (hc : Closed env Q) : ∀ {attrs : List (List Byte × AttrMeaning)} {vm},
    (∀ a ∈ attrs, AttrClean a) → Ends Q (attrs.mapM (Aivm.copyNodeAttr env)) vm := by
  intro attrs
  induction attrs with
  | nil =>
      intro vm _
      exact .pure hc.chains []
  | cons a attrs ih =>
      intro vm h
      simp only [List.mem_cons, forall_eq_or_imp] at h
      rw [List.mapM_cons]
      exact hc.bind (hc.copyNodeAttr h.1) fun _ _ => hc.bind (ih h.2) fun _ _ => .pure hc.chains _

theorem writeNode (hc : Closed env Q) {kind id : List Byte} {attrs : List (List Byte × AttrMeaning)}
    (children : ChildSource) (hk : (0 : Byte) ∉ kind) (hi : (0 : Byte) ∉ id) (ha : ∀ a ∈ attrs, AttrClean a) :
    Ends Q (Aivm.writeNode env kind id attrs children) vm := by
  refine .bind hc.chains (hc.copyStringRangeToArena hk) fun p vm₁ hp => ?_
  refine .bind hc.chains (hc.copyStringRangeToArena hi) fun q vm₂ hq => ?_
  refine hc.bind (hc.mapM_copyNodeAttr ha) fun as vm₃ => .get_bind ?_
  exact .modify_bind hc.chains
    (hc.append _ _ _ (copyStringRangeToArena_ne_null hp) (copyStringRangeToArena_ne_null hq)) (.pure hc.chains _)

theorem mapM_snapshot_clean : ∀ {attrs : List NodeAttr} {vm vm' bs},
    attrs.mapM (Aivm.snapshotNodeAttr env) vm = .ok bs vm' → ∀ b ∈ bs, AttrClean b := by
  intro attrs
  induction attrs with
  | nil =>
      intro vm vm' bs h
      cases h
      simp
  | cons a attrs ih =>
      intro vm vm' bs h
      simp only [List.mapM_cons, bind_ok, pure_run, Outcome.ok.injEq] at h
      obtain ⟨b, _, hb, bs, _, hbs, rfl, _⟩ := h
      simp only [List.mem_cons, forall_eq_or_imp]
      exact ⟨snapshotNodeAttr_clean hb, ih hbs⟩

theorem createNodeRecord (hc : Closed env Q) (kind id : StrPtr) (attrs : List NodeAttr) (children : ChildSource) :
    Ends Q (Aivm.createNodeRecord env kind id attrs children) vm := by
  refine .ite (fun _ => .giveUp hc.chains) fun _ => ?_
  refine hc.bind (hc.allocateIf _ _) fun _ vm₁ => .get_bind ?_
  refine .bind hc.chains (hc.snapshotNodeInputString _) fun kind vm₂ hk => ?_
  refine .bind hc.chains (hc.snapshotNodeInputString _) fun id vm₃ hi => ?_
  refine .bind hc.chains (.mapM hc.chains (fun a vm => hc.snapshotNodeAttr a) _) fun as vm₄ ha => ?_
  refine hc.bind (hc.stringArenaReserve _) fun _ vm₅ => ?_
  refine hc.bind (hc.collectProactively _ _ _) fun _ vm₆ => hc.bind (hc.collectIfFull _ _ _) fun _ vm₇ => ?_
  exact hc.writeNode _ (snapshotNodeInputString_clean hk) (snapshotNodeInputString_clean hi) (mapM_snapshot_clean ha)

/-! ## Copies between machines -/

theorem createScratchPair (hc : Closed env Q) (first second : Value) : Ends Q (Aivm.createScratchPair first second) vm :=
  .get_bind (.ite (fun _ => hc.throw_bind _ _) fun _ => hc.modify_bind ⟨rfl, rfl, rfl, rfl, rfl⟩ (.pure hc.chains _))

theorem copyWorkerBoundaryChildren (hc : Closed env Q) {src : Vm}
    {copy : Nat → BoundaryMaps → VmM (Nat × BoundaryMaps)} (hcopy : ∀ h maps vm, Ends Q (copy h maps) vm) :
    ∀ slots maps vm, Ends Q (Aivm.copyWorkerBoundaryChildren src copy slots maps) vm := by
  intro slots
  induction slots with
  | nil =>
      intro maps vm
      exact .pure hc.chains _
  | cons slot slots ih =>
      intro maps vm
      rw [Aivm.copyWorkerBoundaryChildren]
      split
      · exact hc.throw _
      · exact hc.bind (hcopy _ _ _) fun _ _ => hc.bind (ih _ _) fun _ _ => .pure hc.chains _

theorem copyWorkerBoundaryNode (hc : Closed env Q) {src : Vm} (fuel : Nat) :
    ∀ h maps vm, Ends Q (Aivm.copyWorkerBoundaryNode env (vmStore env) src fuel h maps) vm := by
  induction fuel with
  | zero =>
      intro h maps vm
      exact hc.throw _
  | succ fuel ih =>
      intro h maps vm
      rw [Aivm.copyWorkerBoundaryNode]
      cases src.lookupNode h with
      | none => exact hc.throw _
      | some n =>
          cases maps.nodes.lookup h with
          | some k => exact .pure hc.chains _
          | none =>
              refine .ite (fun _ => hc.throw _) fun _ => hc.bind (hc.allocate _) fun _ _ => ?_
              refine .ite (fun _ => hc.throw_bind _ _) fun _ => ?_
              refine hc.bind (hc.copyWorkerBoundaryChildren ih _ _ _) fun _ _ => ?_
              refine hc.bind (.deref hc.chains _) fun _ _ => hc.bind (.deref hc.chains _) fun _ _ => ?_
              refine hc.bind (.deref hc.chains _) fun _ _ => hc.bind (hc.createNodeRecord _ _ _ _) fun _ _ => ?_
              exact .pure hc.chains _

theorem copyWorkerBoundaryPair (hc : Closed env Q) {src : Vm}
    {copy : Value → BoundaryMaps → VmM (Value × BoundaryMaps)} (hcopy : ∀ v maps vm, Ends Q (copy v maps) vm)
    (h : Nat) (maps : BoundaryMaps) : Ends Q (Aivm.copyWorkerBoundaryPair src copy h maps) vm := by
  unfold Aivm.copyWorkerBoundaryPair
  split
  · exact hc.throw _
  split
  · exact .pure hc.chains _
  refine .ite (fun _ => hc.throw _) fun _ => hc.bind (hcopy _ _ _) fun _ _ => hc.bind (hcopy _ _ _) fun _ _ => ?_
  exact hc.bind (hc.createScratchPair _ _) fun _ _ => .pure hc.chains _

theorem copyWorkerBoundaryValueWithContext (hc : Closed env Q) {src : Vm} (fuel : Nat) : ∀ direction v maps vm,
    Ends Q (Aivm.copyWorkerBoundaryValueWithContext env (vmStore env) src fuel direction v maps) vm := by
  induction fuel with
  | zero =>
      intro direction v maps vm
      exact hc.throw _
  | succ fuel ih =>
      intro direction v maps vm
      have hset : ∀ f (vm : Vm), vm.SameTexts (VmM.setVmError f vm) := fun _ _ => ⟨rfl, rfl, rfl, rfl, rfl⟩
      cases v with
      | void => exact .pure hc.chains _
      | int i => exact .pure hc.chains _
      | number x => exact .pure hc.chains _
      | bool b => exact .pure hc.chains _
      | null => exact .pure hc.chains _
      | string p =>
          by_cases hp : p = .null
          · subst hp
            exact hc.throw _
          · rw [copyWorkerBoundaryValueWithContext_string hp]
            exact hc.bind (.deref hc.chains _) fun _ _ =>
              hc.bind (hc.onFail (hc.copyStringToArena _) (hset _)) fun _ _ => .pure hc.chains _
      | bytes d n =>
          refine .ite (fun _ => hc.throw _) fun _ => hc.bind (.deref hc.chains _) fun _ _ => ?_
          exact hc.bind (hc.onFail (hc.bytesArenaAlloc _) (hset _)) fun _ _ => .pure hc.chains _
      | node h => exact hc.bind (hc.copyWorkerBoundaryNode _ _ _ _) fun _ _ => .pure hc.chains _
      | pair h => exact hc.bind (hc.copyWorkerBoundaryPair (ih _) _ _) fun _ _ => .pure hc.chains _
      | _ => exact hc.throw _

theorem copyWorkerBoundaryValue (hc : Closed env Q) (src : Vm) (direction : String) (v : Value) :
    Ends Q (Aivm.copyWorkerBoundaryValue env src direction v) vm :=
  hc.bind (hc.allocate _) fun _ _ =>
    hc.bind (hc.copyWorkerBoundaryValueWithContext _ _ _ _ _) fun _ _ => .pure hc.chains _

end Closed

end Aivm
