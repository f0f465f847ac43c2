import Aivm.Model.Env

/-!
# Roots

The places from which the collectors follow values: the stack, the locals, task results, parallel values, the
scratch pairs reachable from these, the children of active builders and the three handles kept by the VM itself.
-/

namespace Aivm

/-- The values the collectors visit first, in the order of the source. -/
def Vm.rootValues (vm : Vm) : List Value :=
  vm.stack ++ vm.locals ++ vm.completedTasks.map (·.result) ++ vm.parValues

/-- A scratch pair that can be read from the root values. -/
inductive PairReachable (heap : Heap) (roots : List Value) : Nat → Prop where
  | root {k} : .pair k ∈ roots → PairReachable heap roots k
  | first {k p j} : PairReachable heap roots k → heap.lookupScratchPair k = some p → p.first = .pair j →
      PairReachable heap roots j
  | second {k p j} : PairReachable heap roots k → heap.lookupScratchPair k = some p → p.second = .pair j →
      PairReachable heap roots j

abbrev Vm.PairReachable (vm : Vm) : Nat → Prop := Aivm.PairReachable vm.toHeap vm.rootValues

/-- A place that holds a live value. -/
inductive Root where
  | processArgv
  | uiDefaultWindowSize
  | uiEmptyEvent
  | stack (index : Nat)
  | local (index : Nat)
  | task (index : Nat)
  | par (index : Nat)
  | pairFirst (handle : Nat)
  | pairSecond (handle : Nat)
  | builderChild (builder index : Nat)
deriving DecidableEq, Repr

/-- The value at a root. -/
def Vm.Holds (vm : Vm) : Root → Value → Prop
  | .processArgv, v => 0 < vm.processArgvNodeHandle ∧ v = .node vm.processArgvNodeHandle
  | .uiDefaultWindowSize, v => 0 < vm.uiDefaultWindowSizeNodeHandle ∧ v = .node vm.uiDefaultWindowSizeNodeHandle
  | .uiEmptyEvent, v => 0 < vm.uiEmptyEventNodeHandle ∧ v = .node vm.uiEmptyEventNodeHandle
  | .stack i, v => vm.stack[i]? = some v
  | .local i, v => vm.locals[i]? = some v
  | .task i, v => ∃ t, vm.completedTasks[i]? = some t ∧ v = t.result
  | .par i, v => vm.parValues[i]? = some v
  | .pairFirst k, v => vm.PairReachable k ∧ ∃ p, vm.lookupScratchPair k = some p ∧ v = p.first
  | .pairSecond k, v => vm.PairReachable k ∧ ∃ p, vm.lookupScratchPair k = some p ∧ v = p.second
  | .builderChild b i, v => ∃ r h, vm.nodeBuilders[b]? = some (some r) ∧ r.children[i]? = some h ∧ v = .node h

/-- The values at all roots, and those in pairs that are not reachable. -/
def Vm.heldValues (vm : Vm) : List Value :=
  [.node vm.processArgvNodeHandle, .node vm.uiDefaultWindowSizeNodeHandle, .node vm.uiEmptyEventNodeHandle].filter
      (· ≠ .node 0) ++
    vm.rootValues ++ vm.scratchPairs.flatMap (fun p => [p.first, p.second]) ++
    vm.nodeBuilders.flatMap fun
      | some b => b.children.map .node
      | none => []

theorem Vm.Holds.mem_heldValues {vm : Vm} {r v} (h : vm.Holds r v) : v ∈ vm.heldValues := by
  have hpair : ∀ {k p}, vm.lookupScratchPair k = some p → p ∈ vm.scratchPairs :=
    fun hp => List.mem_of_getElem? ((Heap.lookupScratchPair_eq_some _).1 hp).2
  simp only [Vm.heldValues, Vm.rootValues, List.mem_append, List.mem_flatMap, List.mem_map, List.mem_filter,
    List.mem_cons, List.not_mem_nil, or_false]
  cases r with
  | processArgv =>
      obtain ⟨h0, rfl⟩ := h
      exact .inl (.inl (.inl ⟨.inl rfl, by simp; omega⟩))
  | uiDefaultWindowSize =>
      obtain ⟨h0, rfl⟩ := h
      exact .inl (.inl (.inl ⟨.inr (.inl rfl), by simp; omega⟩))
  | uiEmptyEvent =>
      obtain ⟨h0, rfl⟩ := h
      exact .inl (.inl (.inl ⟨.inr (.inr rfl), by simp; omega⟩))
  | stack i => exact .inl (.inl (.inr (.inl (.inl (.inl (List.mem_of_getElem? h))))))
  | «local» i => exact .inl (.inl (.inr (.inl (.inl (.inr (List.mem_of_getElem? h))))))
  | task i =>
      obtain ⟨t, ht, rfl⟩ := h
      exact .inl (.inl (.inr (.inl (.inr ⟨t, List.mem_of_getElem? ht, rfl⟩))))
  | par i => exact .inl (.inl (.inr (.inr (List.mem_of_getElem? h))))
  | pairFirst k =>
      obtain ⟨_, p, hp, rfl⟩ := h
      exact .inl (.inr ⟨p, hpair hp, .inl rfl⟩)
  | pairSecond k =>
      obtain ⟨_, p, hp, rfl⟩ := h
      exact .inl (.inr ⟨p, hpair hp, .inr rfl⟩)
  | builderChild b i =>
      obtain ⟨r, k, hb, hk, rfl⟩ := h
      exact .inr ⟨some r, List.mem_of_getElem? hb, by simpa using List.mem_of_getElem? hk⟩

/-- A node that a root or a reachable node refers to. -/
inductive NodeReachable (heap : Heap) (root : Nat → Prop) : Nat → Prop where
  | root {h} : root h → NodeReachable heap root h
  | child {h n c} : NodeReachable heap root h → heap.lookupNode h = some n → c ∈ heap.childrenOf n →
      NodeReachable heap root c

/-- Reachability of nodes from the roots of the VM and from `extra` handles. -/
abbrev Vm.NodeReachable (vm : Vm) (extra : List Nat) : Nat → Prop :=
  Aivm.NodeReachable vm.toHeap fun h => (∃ r, vm.Holds r (.node h)) ∨ h ∈ extra

/-! ## Reachable strings -/

/-- A place that holds a string pointer: a root, or a member of a node or of one of its attributes. -/
inductive StrSlot where
  | root (root : Root)
  | kind (node : Nat)
  | id (node : Nat)
  | key (node attr : Nat)
  | text (node attr : Nat)
deriving DecidableEq, Repr

/-- The reachable string pointer at a place. -/
def Vm.PointsAt (vm : Vm) : StrSlot → StrPtr → Prop
  | .root r, p => vm.Holds r (.string p)
  | .kind h, p => vm.NodeReachable [] h ∧ ∃ n, vm.lookupNode h = some n ∧ p = n.kind
  | .id h, p => vm.NodeReachable [] h ∧ ∃ n, vm.lookupNode h = some n ∧ p = n.id
  | .key h i, p => vm.NodeReachable [] h ∧
      ∃ n a, vm.lookupNode h = some n ∧ (vm.attrsOf n)[i]? = some a ∧ p = a.key
  | .text h i, p => vm.NodeReachable [] h ∧
      ∃ n a, vm.lookupNode h = some n ∧ (vm.attrsOf n)[i]? = some a ∧ (a.value = .identifier p ∨ a.value = .string p)

/-- All string pointers in the roots, the pairs and the nodes, reachable or not. -/
def Vm.stringPointers (vm : Vm) : List StrPtr :=
  (vm.heldValues.filterMap fun
    | .string p => some p
    | _ => none) ++
    vm.nodes.flatMap (fun n => [n.kind, n.id]) ++
    vm.nodeAttrs.flatMap fun a =>
      match a.value with
      | .identifier p => [a.key, p]
      | .string p => [a.key, p]
      | _ => [a.key]

theorem Vm.PointsAt.mem_stringPointers {vm : Vm} {slot p} (h : vm.PointsAt slot p) : p ∈ vm.stringPointers := by
  have hnode : ∀ {k n}, vm.lookupNode k = some n → n ∈ vm.nodes :=
    fun hn => List.mem_of_getElem? ((Heap.lookupNode_eq_some _).1 hn).2
  have hattr : ∀ {n a i}, (vm.attrsOf n)[i]? = some a → a ∈ vm.nodeAttrs :=
    fun ha => List.mem_of_mem_drop (List.mem_of_mem_take (List.mem_of_getElem? ha))
  simp only [Vm.stringPointers, List.mem_append, List.mem_flatMap, List.mem_filterMap]
  cases slot with
  | root r => exact .inl (.inl ⟨.string p, Vm.Holds.mem_heldValues h, rfl⟩)
  | kind k =>
      obtain ⟨_, n, hn, rfl⟩ := h
      exact .inl (.inr ⟨n, hnode hn, by simp⟩)
  | id k =>
      obtain ⟨_, n, hn, rfl⟩ := h
      exact .inl (.inr ⟨n, hnode hn, by simp⟩)
  | key k i =>
      obtain ⟨_, n, a, _, ha, rfl⟩ := h
      exact .inr ⟨a, hattr ha, by split <;> simp⟩
  | text k i =>
      obtain ⟨_, n, a, _, ha, hv⟩ := h
      refine .inr ⟨a, hattr ha, ?_⟩
      rcases hv with hv | hv <;> simp [hv]

/-! ## Keeping what is rooted -/

/-- Every root of `vm` is a root of `vm'` and still denotes what it denoted. -/
def Vm.Kept (vm vm' : Vm) : Prop :=
  ∀ r v, vm.Holds r v → ∃ w, vm'.Holds r w ∧ ∀ t, vm.Denotes v t → vm'.Denotes w t

theorem Vm.Kept.refl (vm : Vm) : vm.Kept vm := fun _ v hv => ⟨v, hv, fun _ ht => ht⟩

theorem Vm.Kept.trans {a b c : Vm} (h : a.Kept b) (h' : b.Kept c) : a.Kept c := by
  intro r v hv
  obtain ⟨w, hw, hvw⟩ := h r v hv
  obtain ⟨u, hu, hwu⟩ := h' r w hw
  exact ⟨u, hu, fun t ht => hwu t (hvw t ht)⟩

end Aivm
