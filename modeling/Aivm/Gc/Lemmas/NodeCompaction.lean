import Aivm.Gc.NodeCompaction
import Aivm.Model.Moves
import Aivm.Gc.Lemmas.Mark

/-!
# What a node compaction does

A successful compaction rebuilds the arenas from the live nodes and rewrites the roots with the handle map; the
rest of the state stays as it is. Reading a rewritten value afterwards gives what the old value gave before.
-/

namespace Aivm

open Unfold Sliding

/-! ## The new arenas -/

theorem slice_append {α : Type} (pre mid post : List α) {start count : Nat} (hs : start = pre.length)
    (hc : count = mid.length) : slice (pre ++ mid ++ post) start count = mid := by
  subst hs hc
  simp [slice]

theorem slice_length {α : Type} {array : List α} {start count : Nat} (h : start + count ≤ array.length) :
    (slice array start count).length = count := by
  simp only [slice, List.length_take, List.length_drop]
  omega

/-- `n'` is the node `n` with its slices moved into `res`. -/
structure MovedNode (vm : Vm) (map : Nat → Nat) (res : NodeArenas) (n n' : NodeRecord) : Prop where
  kind : n'.kind = n.kind
  id : n'.id = n.id
  attrs : n.attrStart + n.attrCount ≤ vm.nodeAttrs.length →
    n'.attrStart + n'.attrCount ≤ res.attrs.length ∧ slice res.attrs n'.attrStart n'.attrCount = vm.attrsOf n
  children : ∃ cs, remapChildHandlesForCompaction vm.nodeCapacity map (vm.childrenOf n) = some cs ∧
    (n.childStart + n.childCount ≤ vm.nodeChildren.length → n'.childStart + n'.childCount ≤ res.children.length ∧
      slice res.children n'.childStart n'.childCount = cs)

theorem remapChildHandles_length {capacity map cs cs'}
    (h : remapChildHandlesForCompaction capacity map cs = some cs') : cs'.length = cs.length :=
  (mapM_eq_some.1 h).length_eq.symm

theorem compactNode_ok {vm : Vm} {map acc h res} (hc : compactNode vm map acc h = .ok res) :
    ∃ n cs, vm.lookupNode h = some n ∧ remapChildHandlesForCompaction vm.nodeCapacity map (vm.childrenOf n) = some cs ∧
      res = ⟨acc.nodes ++ [{ n with attrStart := acc.attrs.length, childStart := acc.children.length }],
        acc.attrs ++ vm.attrsOf n, acc.children ++ cs⟩ := by
  unfold compactNode at hc
  split at hc
  · cases hc
  · rename_i n hn
    split at hc
    · cases hc
    split at hc
    · cases hc
    split at hc
    · cases hc
    split at hc
    · cases hc
    · rename_i cs hcs
      cases hc
      exact ⟨n, cs, hn, hcs, rfl⟩

theorem compactNodes_ok {vm : Vm} {map hs} : ∀ {acc res}, compactNodes vm map hs acc = .ok res →
    ∃ ns as cs, res = ⟨acc.nodes ++ ns, acc.attrs ++ as, acc.children ++ cs⟩ ∧
      List.Forall₂ (fun h n' => ∃ n, vm.lookupNode h = some n ∧ MovedNode vm map res n n') hs ns := by
  induction hs with
  | nil =>
      intro acc res h
      simp only [compactNodes, Except.ok.injEq] at h
      subst h
      exact ⟨[], [], [], by simp, .nil⟩
  | cons h hs ih =>
      intro acc res hc
      simp only [compactNodes] at hc
      split at hc
      · cases hc
      · rename_i acc' hacc
        obtain ⟨n, cs, hn, hcs, rfl⟩ := compactNode_ok hacc
        obtain ⟨ns, as, cs', rfl, hrest⟩ := ih hc
        refine ⟨{ n with attrStart := acc.attrs.length, childStart := acc.children.length } :: ns,
          vm.attrsOf n ++ as, cs ++ cs', by simp, .cons ⟨n, hn, rfl, rfl, ?_, cs, hcs, ?_⟩ (by simpa using hrest)⟩
        · intro hr
          have hlen : (vm.attrsOf n).length = n.attrCount := slice_length hr
          exact ⟨by simp only [List.length_append, hlen]; omega, slice_append _ _ _ rfl hlen.symm⟩
        · intro hr
          have hlen : cs.length = n.childCount := by
            rw [remapChildHandles_length hcs]
            exact slice_length hr
          exact ⟨by simp only [List.length_append, hlen]; omega, slice_append _ _ _ rfl hlen.symm⟩

theorem compactNodes_counts {vm : Vm} {map hs} : ∀ {acc res}, compactNodes vm map hs acc = .ok res →
    res.nodes.length = acc.nodes.length + hs.length ∧
      res.attrs.length ≤ acc.attrs.length + ((hs.filterMap vm.lookupNode).map NodeRecord.attrCount).sum ∧
      res.children.length ≤ acc.children.length + ((hs.filterMap vm.lookupNode).map NodeRecord.childCount).sum := by
  induction hs with
  | nil =>
      intro acc res h
      simp only [compactNodes, Except.ok.injEq] at h
      subst h
      simp
  | cons h hs ih =>
      intro acc res hc
      simp only [compactNodes] at hc
      split at hc
      · cases hc
      · rename_i acc' hacc
        obtain ⟨n, cs, hn, hcs, rfl⟩ := compactNode_ok hacc
        obtain ⟨h1, h2, h3⟩ := ih hc
        have ha : (vm.attrsOf n).length ≤ n.attrCount := List.length_take_le _ _
        have hcl : cs.length ≤ n.childCount := by
          rw [remapChildHandles_length hcs]
          exact List.length_take_le _ _
        simp only [List.length_append, List.length_cons, List.length_nil, List.filterMap_cons, hn, List.map_cons,
          List.sum_cons] at h1 h2 h3 ⊢
        omega

/-! ## The new roots -/

/-- What rewriting the roots does: every root is rewritten by the map, the rest is untouched. -/
structure RootsRemapped (map : Nat → Nat) (livePairs : List Nat) (vm vm' : Vm) : Prop where
  frame : vm' = { vm with
    stack := vm'.stack, locals := vm'.locals, completedTasks := vm'.completedTasks, parValues := vm'.parValues
    scratchPairs := vm'.scratchPairs, nodeBuilders := vm'.nodeBuilders
    processArgvNodeHandle := vm'.processArgvNodeHandle
    uiDefaultWindowSizeNodeHandle := vm'.uiDefaultWindowSizeNodeHandle
    uiEmptyEventNodeHandle := vm'.uiEmptyEventNodeHandle }
  stack : vm.stack.mapM (remapValueNodeHandle vm.nodeCapacity vm.scratchPairs.length map) = some vm'.stack
  locals : vm.locals.mapM (remapValueNodeHandle vm.nodeCapacity vm.scratchPairs.length map) = some vm'.locals
  tasks : (vm.completedTasks.mapM fun t =>
    (remapValueNodeHandle vm.nodeCapacity vm.scratchPairs.length map t.result).map fun r => { t with result := r }) =
      some vm'.completedTasks
  pars : vm.parValues.mapM (remapValueNodeHandle vm.nodeCapacity vm.scratchPairs.length map) = some vm'.parValues
  pairs : vm.scratchPairs.zipIdx.mapM (remapScratchPair vm.nodeCapacity vm.scratchPairs.length map livePairs) =
    some vm'.scratchPairs
  builders : (vm.nodeBuilders.mapM fun
    | none => some none
    | some b => (remapChildHandlesForCompaction vm.nodeCapacity map b.children).map fun cs =>
        some { b with children := cs }) = some vm'.nodeBuilders
  processArgv : remapVmHandle vm.nodeCapacity map vm.processArgvNodeHandle = some vm'.processArgvNodeHandle
  uiDefaultWindowSize :
    remapVmHandle vm.nodeCapacity map vm.uiDefaultWindowSizeNodeHandle = some vm'.uiDefaultWindowSizeNodeHandle
  uiEmptyEvent : remapVmHandle vm.nodeCapacity map vm.uiEmptyEventNodeHandle = some vm'.uiEmptyEventNodeHandle

theorem remapRoots_ok {map livePairs vm u vm'} (h : remapRoots map livePairs vm = .ok u vm') :
    RootsRemapped map livePairs vm vm' := by
  simp only [remapRoots, remapStack, remapLocals, remapCompletedTasks, remapParValues, remapScratchPairs,
    remapNodeBuilders, remapProcessArgv, remapUiDefaultWindowSize, remapUiEmptyEvent, VmM.bind_ok, VmM.updateOr_ok,
    Option.bind_eq_bind, Option.bind_eq_some_iff, Option.pure_def, Option.some.injEq] at h
  obtain ⟨_, _, ⟨st, hst, rfl⟩, _, _, ⟨lo, hlo, rfl⟩, _, _, ⟨ta, hta, rfl⟩, _, _, ⟨pa, hpa, rfl⟩, _, _, ⟨sp, hsp, rfl⟩,
    _, _, ⟨nb, hnb, rfl⟩, _, _, ⟨a, ha, rfl⟩, _, _, ⟨b, hb, rfl⟩, c, hc, rfl⟩ := h
  exact ⟨rfl, hst, hlo, hta, hpa, hsp, hnb, ha, hb, hc⟩

/-! ## The whole compaction -/

/-- A compaction of a VM with nodes, after its attempt has been counted. -/
structure NodeCompacted (env : Env) (extra : List Nat) (vm vm' : Vm) (live livePairs : List Nat)
    (arenas : NodeArenas) : Prop where
  marked : markLiveNodeHandles env vm extra = .ok live
  markedPairs : markLiveScratchPairHandles env vm = .ok livePairs
  rebuilt : compactNodes vm (place (liveOrder vm live)) (liveOrder vm live) ⟨[], [], []⟩ = .ok arenas
  roots : RootsRemapped (place (liveOrder vm live)) livePairs (installArenas arenas vm) vm'

theorem compactNodeArenasWithMap_ok {env extra vm map vm'}
    (h : compactNodeArenasWithMap env extra vm = .ok map vm') :
    (vm.nodes.length = 0 ∧ vm' = countNodeGcAttempt vm ∧ map = fun _ => 0) ∨
      ∃ live livePairs arenas, NodeCompacted env extra (countNodeGcAttempt vm) vm' live livePairs arenas ∧
        map = place (liveOrder vm live) := by
  simp only [compactNodeArenasWithMap, VmM.bind_ok, VmM.modify_run, VmM.get_run, Outcome.ok.injEq] at h
  obtain ⟨_, _, ⟨_, rfl⟩, _, _, ⟨rfl, rfl⟩, h⟩ := h
  split at h
  · rename_i hn
    cases h
    exact .inl ⟨hn, rfl, rfl⟩
  · simp only [VmM.bind_ok, VmM.lift_ok, VmM.modify_run, Outcome.ok.injEq, VmM.pure_run] at h
    obtain ⟨_, _, ha, live, _, ⟨hl, rfl⟩, livePairs, _, ⟨hp, rfl⟩, arenas, _, ⟨hc, rfl⟩, _, _, ⟨_, rfl⟩, _, _, hr, rfl,
      rfl⟩ := h
    obtain rfl := Env.allocate_ok ha
    exact .inr ⟨live, livePairs, arenas, ⟨hl, hp, hc, remapRoots_ok hr⟩, rfl⟩

theorem mem_liveOrder {vm : Vm} {live h} : h ∈ liveOrder vm live ↔ h ∈ live ∧ 0 < h ∧ h ≤ vm.nodes.length := by
  have hr : h ∈ List.range' 1 vm.nodes.length ↔ 0 < h ∧ h ≤ vm.nodes.length := by
    rw [List.mem_range'_1]
    omega
  simp only [liveOrder, List.mem_filter, hr, decide_eq_true_eq]
  tauto

theorem liveOrder_sorted (vm : Vm) (live : List Nat) : (liveOrder vm live).Pairwise (· < ·) :=
  (List.pairwise_lt_range' (s := 1) (n := vm.nodes.length)).filter _

theorem filterMap_getElem?_range {α : Type} (l : List α) : (List.range l.length).filterMap (l[·]?) = l := by
  induction l with
  | nil => rfl
  | cons a l ih =>
      rw [List.length_cons, List.range_succ_eq_map, List.filterMap_cons, List.filterMap_map]
      simpa [Function.comp_def] using ih

/-- The live nodes are a part of the old node array, in order. -/
theorem liveNodes_sublist (vm : Vm) (live : List Nat) :
    ((liveOrder vm live).filterMap vm.lookupNode).Sublist vm.nodes := by
  have hall : (List.range' 1 vm.nodes.length).filterMap vm.lookupNode = vm.nodes := by
    rw [List.range'_eq_map_range, List.filterMap_map]
    have hf : (vm.lookupNode ∘ fun i => 1 + i) = fun i => vm.nodes[i]? := by
      funext i
      simp [Heap.lookupNode]
    rw [hf, filterMap_getElem?_range]
  have hsub := (List.filter_sublist (p := fun h => decide (h ∈ live)) (l := List.range' 1 vm.nodes.length)).filterMap
    vm.lookupNode
  rwa [hall] at hsub

theorem remapHandle_eq_some {capacity : Nat} {map : Nat → Nat} {h h'} :
    remapHandle capacity map h = some h' ↔ 0 < h ∧ h ≤ capacity ∧ 0 < map h ∧ h' = map h := by
  unfold remapHandle
  split
  · simp_all [eq_comm]
  · simp only [reduceCtorEq, false_iff]
    tauto

/-- The relation between a live value before a node compaction and the same value after it. -/
inductive Moved (order livePairs : List Nat) : Value → Value → Prop where
  | node {h} : h ∈ order → Moved order livePairs (.node h) (.node (place order h))
  | pair {k} : k ∈ livePairs → Moved order livePairs (.pair k) (.pair k)
  | other {v} : (∀ h, v ≠ .node h) → (∀ k, v ≠ .pair k) → Moved order livePairs v v

theorem Moved.of_remapHandle {order livePairs capacity h h'} (hr : remapHandle capacity (place order) h = some h') :
    Moved order livePairs (.node h) (.node h') := by
  obtain ⟨_, _, hpos, rfl⟩ := remapHandle_eq_some.1 hr
  exact .node (place_pos.1 hpos)

theorem Moved.of_remapValue {order livePairs capacity pairCount v w}
    (hr : remapValueNodeHandle capacity pairCount (place order) v = some w)
    (hp : ∀ k, v = .pair k → 0 < k → k ≤ pairCount → k ∈ livePairs) : Moved order livePairs v w := by
  cases v with
  | node h =>
      simp only [remapValueNodeHandle, Option.map_eq_some_iff] at hr
      obtain ⟨h', hh, rfl⟩ := hr
      exact .of_remapHandle hh
  | pair k =>
      simp only [remapValueNodeHandle] at hr
      split at hr
      · rename_i hk
        cases hr
        exact .pair (hp k rfl hk.1 hk.2)
      · cases hr
  | _ =>
      cases hr
      exact .other (by simp) (by simp)

theorem Moved.pair_iff {order livePairs v w k} (h : Moved order livePairs v w) : v = .pair k ↔ w = .pair k := by
  cases h <;> simp

namespace NodeCompacted

variable {env : Env} {extra : List Nat} {vm vm' : Vm} {live livePairs : List Nat} {arenas : NodeArenas}

theorem heap (c : NodeCompacted env extra vm vm' live livePairs arenas) :
    vm'.toHeap = { vm.toHeap with
      nodes := arenas.nodes, nodeAttrs := arenas.attrs, nodeChildren := arenas.children
      scratchPairs := vm'.scratchPairs } :=
  congrArg Vm.toHeap c.roots.frame

/-- The node numbered `place order h` after the compaction is the node `h` before it, moved. -/
theorem lookupNode (c : NodeCompacted env extra vm vm' live livePairs arenas) {h}
    (hh : h ∈ liveOrder vm live) :
    ∃ n n', vm.lookupNode h = some n ∧ vm'.lookupNode (place (liveOrder vm live) h) = some n' ∧
      MovedNode vm (place (liveOrder vm live)) arenas n n' := by
  obtain ⟨ns, as, cs, hres, hall⟩ := compactNodes_ok c.rebuilt
  have hns : arenas.nodes = ns := by simp [hres]
  have hget := getElem?_place hh
  obtain ⟨hlt, hget⟩ := List.getElem?_eq_some_iff.1 hget
  have hlt' : place (liveOrder vm live) h - 1 < ns.length := hall.length_eq ▸ hlt
  obtain ⟨n, hn, hmoved⟩ := hall.get hlt hlt'
  simp only [List.get_eq_getElem, hget] at hn hmoved
  refine ⟨n, _, hn, ?_, hmoved⟩
  rw [c.heap]
  simp [Heap.lookupNode, place_pos.2 hh, hns, List.getElem?_eq_getElem hlt']

/-- A live pair after the compaction has the moved components. -/
theorem lookupScratchPair (c : NodeCompacted env extra vm vm' live livePairs arenas) {k p} (hk : k ∈ livePairs)
    (hp : vm.lookupScratchPair k = some p) :
    ∃ p', vm'.lookupScratchPair k = some p' ∧ Moved (liveOrder vm live) livePairs p.first p'.first ∧
      Moved (liveOrder vm live) livePairs p.second p'.second := by
  obtain ⟨h0, hget⟩ := (Heap.lookupScratchPair_eq_some _).1 hp
  obtain ⟨hlt, hget⟩ := List.getElem?_eq_some_iff.1 hget
  have hall := mapM_eq_some.1 c.roots.pairs
  have hlt₁ : k - 1 < vm.scratchPairs.zipIdx.length := by simpa using hlt
  have hlt' : k - 1 < vm'.scratchPairs.length := hall.length_eq ▸ hlt₁
  have hstep := hall.get hlt₁ hlt'
  simp only [List.get_eq_getElem, installArenas, List.getElem_zipIdx, Nat.zero_add, hget, remapScratchPair,
    Nat.sub_add_cancel h0, hk, ↓reduceIte, Option.bind_eq_bind, Option.bind_eq_some_iff, Option.pure_def,
    Option.some.injEq] at hstep
  obtain ⟨a, ha, b, hb, hab⟩ := hstep
  have hreach := ((mem_livePairs c.markedPairs).1 hk).1
  refine ⟨vm'.scratchPairs[k - 1], by simp [Heap.lookupScratchPair, h0, List.getElem?_eq_getElem hlt'], ?_, ?_⟩
  · rw [← hab]
    exact .of_remapValue ha fun j hj h0 h1 =>
      (mem_livePairs c.markedPairs).2 ⟨hreach.first hp hj, lookupScratchPair_of_range h0 h1⟩
  · rw [← hab]
    exact .of_remapValue hb fun j hj h0 h1 =>
      (mem_livePairs c.markedPairs).2 ⟨hreach.second hp hj, lookupScratchPair_of_range h0 h1⟩

theorem cstr_eq (c : NodeCompacted env extra vm vm' live livePairs arenas) : vm'.cstr = vm.cstr :=
  Heap.cstr_congr (by rw [c.heap]) (by rw [c.heap])

theorem bytesAt_eq (c : NodeCompacted env extra vm vm' live livePairs arenas) : vm'.bytesAt = vm.bytesAt :=
  Heap.bytesAt_congr (by rw [c.heap]) (by rw [c.heap])

theorem nodeLabel_eq (c : NodeCompacted env extra vm vm' live livePairs arenas) {map n n'}
    (hm : MovedNode vm map arenas n n') (hs : vm.SlicesInRange n) : vm'.nodeLabel n' = vm.nodeLabel n := by
  refine Heap.nodeLabel_congr c.cstr_eq hm.kind hm.id ?_
  rw [c.heap]
  exact (hm.attrs hs.1).2

/-- Reading a moved value afterwards gives what the old value gave before. -/
theorem simulates (c : NodeCompacted env extra vm vm' live livePairs arenas) :
    Simulates vm.expand vm'.expand (Moved (liveOrder vm live) livePairs) := by
  intro v w hvw l vs hexp
  have hheap := c.heap
  cases hvw with
  | node hh =>
      obtain ⟨n, hn, hslices, hlabel, rfl⟩ := (Heap.expand_node _).1 hexp
      obtain ⟨n₁, n', hn₁, hn', hmoved⟩ := c.lookupNode hh
      rw [hn] at hn₁
      cases hn₁
      have hattr := (hmoved.attrs hslices.1).1
      obtain ⟨cs, hcs, hchildren⟩ := hmoved.children
      obtain ⟨hchild, hchildren⟩ := hchildren hslices.2
      refine ⟨cs.map .node, (Heap.expand_node _).2 ⟨n', hn', ?_, c.nodeLabel_eq hmoved hslices ▸ hlabel, ?_⟩, ?_⟩
      · rw [hheap]
        exact ⟨hattr, hchild⟩
      · rw [hheap]
        simp only [Heap.childrenOf, hchildren]
      · rw [List.forall₂_map_left_iff, List.forall₂_map_right_iff]
        exact (mapM_eq_some.1 hcs).imp fun _ _ hab => .of_remapHandle hab
  | pair hk =>
      obtain ⟨p, hp, rfl, rfl⟩ := (Heap.expand_pair _).1 hexp
      obtain ⟨p', hp', hfirst, hsecond⟩ := c.lookupScratchPair hk hp
      exact ⟨[p'.first, p'.second], (Heap.expand_pair _).2 ⟨p', hp', rfl, rfl⟩, .cons hfirst (.cons hsecond .nil)⟩
  | other hn hp =>
      obtain rfl := Heap.expand_leaf _ hn hp hexp
      exact ⟨[], by rw [Heap.expand_congr c.cstr_eq c.bytesAt_eq hn hp, hexp], .nil⟩

/-- In arenas whose slices are in range, a moved value reads as nothing only where the old one did. -/
theorem expand_none (c : NodeCompacted env extra vm vm' live livePairs arenas)
    (hs : ∀ n ∈ vm.nodes, vm.SlicesInRange n) {v w} (hvw : Moved (liveOrder vm live) livePairs v w) (hv : vm.expand v = none) :
    vm'.expand w = none := by
  cases hvw with
  | node hh =>
      obtain ⟨n, n', hn, hn', hmoved⟩ := c.lookupNode hh
      have hslices := hs n (List.mem_of_getElem? ((Heap.lookupNode_eq_some _).1 hn).2)
      rw [Option.eq_none_iff_forall_ne_some]
      rintro ⟨l, ws⟩ hexp
      obtain ⟨n₂, hn₂, _, hl, _⟩ := (Heap.expand_node _).1 hexp
      rw [hn'] at hn₂
      cases hn₂
      rw [c.nodeLabel_eq hmoved hslices] at hl
      rw [(Heap.expand_node _).2 ⟨n, hn, hslices, hl, rfl⟩] at hv
      cases hv
  | pair hk =>
      obtain ⟨_, p, hp⟩ := (mem_livePairs c.markedPairs).1 hk
      simp [Heap.expand, hp] at hv
  | other hn hp => rw [Heap.expand_congr c.cstr_eq c.bytesAt_eq hn hp, hv]

/-! ## Roots before and after -/

theorem rootValues (c : NodeCompacted env extra vm vm' live livePairs arenas) :
    List.Forall₂ (fun v w => remapValueNodeHandle vm.nodeCapacity vm.scratchPairs.length
      (place (liveOrder vm live)) v = some w) vm.rootValues vm'.rootValues := by
  refine List.rel_append (List.rel_append (List.rel_append ?_ ?_) ?_) ?_
  · exact mapM_eq_some.1 c.roots.stack
  · exact mapM_eq_some.1 c.roots.locals
  · rw [List.forall₂_map_left_iff, List.forall₂_map_right_iff]
    refine (mapM_eq_some.1 c.roots.tasks).imp fun t t' ht => ?_
    obtain ⟨r, hr, rfl⟩ := Option.map_eq_some_iff.1 ht
    exact hr
  · exact mapM_eq_some.1 c.roots.pars

/-- A root value that has been rewritten is live. -/
theorem moved_of_root (c : NodeCompacted env extra vm vm' live livePairs arenas) {v w} (hv : v ∈ vm.rootValues)
    (h : remapValueNodeHandle vm.nodeCapacity vm.scratchPairs.length (place (liveOrder vm live)) v = some w) :
    Moved (liveOrder vm live) livePairs v w :=
  .of_remapValue h fun _ hk h0 h1 =>
    (mem_livePairs c.markedPairs).2 ⟨.root (hk ▸ hv), lookupScratchPair_of_range h0 h1⟩

theorem pair_mem_rootValues (c : NodeCompacted env extra vm vm' live livePairs arenas) {k} :
    .pair k ∈ vm.rootValues ↔ .pair k ∈ vm'.rootValues := by
  simp only [List.mem_iff_getElem?]
  refine exists_congr fun i => ⟨fun hi => ?_, fun hi => ?_⟩
  · obtain ⟨w, hw, hvw⟩ := forall₂_getElem? c.rootValues hi
    rw [hw, (c.moved_of_root (List.mem_of_getElem? hi) hvw).pair_iff.1 rfl]
  · obtain ⟨v, hv, hvw⟩ := forall₂_getElem?' c.rootValues hi
    rw [hv, (c.moved_of_root (List.mem_of_getElem? hv) hvw).pair_iff.2 rfl]

theorem scratchPairs_length (c : NodeCompacted env extra vm vm' live livePairs arenas) :
    vm'.scratchPairs.length = vm.scratchPairs.length := by
  have h := (mapM_eq_some.1 c.roots.pairs).length_eq
  rw [List.length_zipIdx] at h
  exact h.symm

/-- A reachable pair read after the compaction comes from the pair with the same handle. -/
theorem lookupScratchPair_back (c : NodeCompacted env extra vm vm' live livePairs arenas) {k p'}
    (hr : vm.PairReachable k) (hp' : vm'.lookupScratchPair k = some p') :
    ∃ p, vm.lookupScratchPair k = some p ∧ Moved (liveOrder vm live) livePairs p.first p'.first ∧
      Moved (liveOrder vm live) livePairs p.second p'.second := by
  have hrange := lookupScratchPair_range hp'
  obtain ⟨p, hp⟩ : ∃ p, vm.lookupScratchPair k = some p :=
    lookupScratchPair_of_range hrange.1 (c.scratchPairs_length ▸ hrange.2)
  obtain ⟨q, hq, hfirst, hsecond⟩ := c.lookupScratchPair ((mem_livePairs c.markedPairs).2 ⟨hr, p, hp⟩) hp
  rw [hp'] at hq
  cases hq
  exact ⟨p, hp, hfirst, hsecond⟩

theorem pairReachable_back (c : NodeCompacted env extra vm vm' live livePairs arenas) {k}
    (h : vm'.PairReachable k) : vm.PairReachable k := by
  induction h with
  | root hm => exact .root (c.pair_mem_rootValues.2 hm)
  | first _ hp hj ih =>
      obtain ⟨p, hp', hfirst, _⟩ := c.lookupScratchPair_back ih hp
      exact ih.first hp' (hfirst.pair_iff.2 hj)
  | second _ hp hj ih =>
      obtain ⟨p, hp', _, hsecond⟩ := c.lookupScratchPair_back ih hp
      exact ih.second hp' (hsecond.pair_iff.2 hj)

theorem remapVmHandle_pos {capacity map h h'} (hr : remapVmHandle capacity map h = some h') (hpos : 0 < h) :
    remapHandle capacity map h = some h' := by
  simpa [remapVmHandle, hpos] using hr

theorem handleMoved {capacity order livePairs h h'} (hr : remapVmHandle capacity (place order) h = some h') :
    HandleMoved (Moved order livePairs) h h' := by
  intro hpos
  have hr' := remapVmHandle_pos hr hpos
  obtain ⟨_, _, h0, rfl⟩ := remapHandle_eq_some.1 hr'
  exact ⟨h0, .of_remapHandle hr'⟩

/-- A node compaction moves every root along the handle map. -/
theorem moves (c : NodeCompacted env extra vm vm' live livePairs arenas) :
    Moves (Moved (liveOrder vm live) livePairs) vm vm' where
  frame := by
    unfold Vm.SameFrame
    rw [c.roots.frame]
    rfl
  simulates := c.simulates
  like := by
    rintro v w hvw
    cases hvw with
    | other _ _ => exact .refl _
    | _ => trivial
  oneToOne := by
    rintro v v' w w' hvw hvw' hv hv'
    cases hvw with
    | node hh =>
        cases hvw' with
        | node hh' => exact ⟨fun he => by rw [Value.node.inj he], fun he => by rw [place_inj hh (Value.node.inj he)]⟩
        | pair _ => simp
        | other hn _ => cases v' <;> simp_all [Value.IsHandle]
    | pair _ =>
        cases hvw' with
        | node _ => simp
        | pair _ => rfl
        | other _ hp => cases v' <;> simp_all [Value.IsHandle]
    | other hn hp => cases v <;> simp_all [Value.IsHandle]
  inRange := by
    rintro v w hvw hv
    cases hvw with
    | node hh =>
        obtain ⟨_, n', _, hn', _⟩ := c.lookupNode hh
        exact lookupNode_range hn'
    | pair hk =>
        rw [Heap.InRange, c.scratchPairs_length]
        exact hv
    | other hn hp =>
        cases v with
        | node k => exact absurd rfl (hn k)
        | pair k => exact absurd rfl (hp k)
        | _ => trivial
  stack := by
    refine forall₂_imp_mem (mapM_eq_some.1 c.roots.stack) fun v w hv hvw => ?_
    exact c.moved_of_root (mem_rootValues.2 (.inl (List.mem_iff_getElem?.1 hv))) hvw
  locals := by
    refine forall₂_imp_mem (mapM_eq_some.1 c.roots.locals) fun v w hv hvw => ?_
    exact c.moved_of_root (mem_rootValues.2 (.inr (.inl (List.mem_iff_getElem?.1 hv)))) hvw
  tasks := by
    refine forall₂_imp_mem (mapM_eq_some.1 c.roots.tasks) fun t t' ht htt => ?_
    obtain ⟨w, hw, rfl⟩ := Option.map_eq_some_iff.1 htt
    obtain ⟨i, hi⟩ := List.mem_iff_getElem?.1 ht
    exact ⟨rfl, c.moved_of_root (mem_rootValues.2 (.inr (.inr (.inl ⟨i, t, hi, rfl⟩)))) hw⟩
  pars := by
    refine forall₂_imp_mem (mapM_eq_some.1 c.roots.pars) fun v w hv hvw => ?_
    exact c.moved_of_root (mem_rootValues.2 (.inr (.inr (.inr (List.mem_iff_getElem?.1 hv))))) hvw
  builders := by
    refine (mapM_eq_some.1 c.roots.builders).imp fun b b' hb => ?_
    cases b with
    | none =>
        cases hb
        exact .none
    | some b =>
        obtain ⟨cs, hcs, rfl⟩ := Option.map_eq_some_iff.1 hb
        exact .some ((mapM_eq_some.1 hcs).imp fun _ _ h => .of_remapHandle h)
  processArgv := handleMoved c.roots.processArgv
  uiDefaultWindowSize := handleMoved c.roots.uiDefaultWindowSize
  uiEmptyEvent := handleMoved c.roots.uiEmptyEvent

theorem holds_forward (c : NodeCompacted env extra vm vm' live livePairs arenas) {r v} (h : vm.Holds r v) :
    ∃ w, vm'.Holds r w ∧ Moved (liveOrder vm live) livePairs v w :=
  c.moves.holds (fun hm => hm.pair_iff.1 rfl) h

end NodeCompacted

end Aivm
