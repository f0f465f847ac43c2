import Aivm.Lib.Sliding
import Aivm.Gc.Mark

/-!
# Compaction of the node arenas

`aivm_vm_compact_node_arenas_with_map`: mark, renumber the live nodes in increasing order, rebuild the three
arenas, and rewrite every root with the handle map. The map sends a handle that did not survive to `0`.
-/

namespace Aivm

open Sliding

/-- A handle rewritten by a handle map, if it lies in the map and survived. -/
def remapHandle (capacity : Nat) (map : Nat → Nat) (h : Nat) : Option Nat :=
  if 0 < h ∧ h ≤ capacity ∧ 0 < map h then some (map h) else none

/-- `aivm_vm_remap_child_handles_for_compaction`. -/
def remapChildHandlesForCompaction (capacity : Nat) (map : Nat → Nat) (children : List Nat) : Option (List Nat) :=
  children.mapM (remapHandle capacity map)

/-- `remap_value_node_handle`; the range of a pair handle is only checked. -/
def remapValueNodeHandle (capacity pairCount : Nat) (map : Nat → Nat) : Value → Option Value
  | .pair k => if 0 < k ∧ k ≤ pairCount then some (.pair k) else none
  | .node h => (remapHandle capacity map h).map .node
  | v => some v

structure NodeArenas where
  nodes : List NodeRecord
  attrs : List NodeAttr
  children : List Nat

/-- Append the live node `h` to the new arenas. -/
def compactNode (vm : Vm) (map : Nat → Nat) (acc : NodeArenas) (h : Nat) : Except Fault NodeArenas :=
  match vm.lookupNode h with
  | none => .error ⟨.invalidProgram, "Dangling live node handle during node GC."⟩
  | some n =>
      if vm.nodeAttrCapacity < acc.attrs.length + n.attrCount ∨
          vm.nodeChildCapacity < acc.children.length + n.childCount then
        .error ⟨.memoryPressure, "AIVMM004: node compaction capacity exceeded."⟩
      else if n.attrCount ≠ 0 ∧ vm.nodeAttrCapacity < n.attrStart + n.attrCount then
        .error ⟨.memoryPressure, "AIVMM004: node attr slot overflow during node GC."⟩
      else if n.childCount ≠ 0 ∧ vm.nodeChildCapacity < n.childStart + n.childCount then
        .error ⟨.memoryPressure, "AIVMM004: node child slot overflow during node GC."⟩
      else
        match remapChildHandlesForCompaction vm.nodeCapacity map (vm.childrenOf n) with
        | none => .error ⟨.invalidProgram, "Dangling child handle during node GC."⟩
        | some children =>
            .ok
              { nodes := acc.nodes ++
                  [{ n with attrStart := acc.attrs.length, childStart := acc.children.length }]
                attrs := acc.attrs ++ vm.attrsOf n
                children := acc.children ++ children }

def compactNodes (vm : Vm) (map : Nat → Nat) : List Nat → NodeArenas → Except Fault NodeArenas
  | [], acc => .ok acc
  | h :: hs, acc =>
      match compactNode vm map acc h with
      | .error e => .error e
      | .ok acc' => compactNodes vm map hs acc'

/-- The live handles in increasing order. -/
def liveOrder (vm : Vm) (live : List Nat) : List Nat :=
  (List.range' 1 vm.nodes.length).filter (· ∈ live)

/-- Put the new arenas in place and count what was reclaimed. -/
def installArenas (a : NodeArenas) (vm : Vm) : Vm :=
  { vm with
    nodes := a.nodes
    nodeAttrs := a.attrs
    nodeChildren := a.children
    counters := { vm.counters with
      nodeGcCompactionCount := vm.counters.nodeGcCompactionCount + 1
      nodeGcReclaimedNodes := vm.counters.nodeGcReclaimedNodes + (vm.nodes.length - a.nodes.length)
      nodeGcReclaimedAttrs := vm.counters.nodeGcReclaimedAttrs + (vm.nodeAttrs.length - a.attrs.length)
      nodeGcReclaimedChildren :=
        vm.counters.nodeGcReclaimedChildren + (vm.nodeChildren.length - a.children.length) } }

/-! ## Rewriting the roots -/

def remapStack (map : Nat → Nat) : VmM Unit :=
  .updateOr ⟨.invalidProgram, "Invalid stack node handle during node GC."⟩ fun vm => do
    let stack ← vm.stack.mapM (remapValueNodeHandle vm.nodeCapacity vm.scratchPairs.length map)
    return { vm with stack := stack }

def remapLocals (map : Nat → Nat) : VmM Unit :=
  .updateOr ⟨.invalidProgram, "Invalid local node handle during node GC."⟩ fun vm => do
    let locals ← vm.locals.mapM (remapValueNodeHandle vm.nodeCapacity vm.scratchPairs.length map)
    return { vm with locals := locals }

def remapCompletedTasks (map : Nat → Nat) : VmM Unit :=
  .updateOr ⟨.invalidProgram, "Invalid completed-task node handle during node GC."⟩ fun vm => do
    let tasks ← vm.completedTasks.mapM fun t =>
      (remapValueNodeHandle vm.nodeCapacity vm.scratchPairs.length map t.result).map fun r => { t with result := r }
    return { vm with completedTasks := tasks }

def remapParValues (map : Nat → Nat) : VmM Unit :=
  .updateOr ⟨.invalidProgram, "Invalid parallel-value node handle during node GC."⟩ fun vm => do
    let values ← vm.parValues.mapM (remapValueNodeHandle vm.nodeCapacity vm.scratchPairs.length map)
    return { vm with parValues := values }

/-- The components of a marked pair are rewritten, those of other pairs are left alone. -/
def remapScratchPair (capacity pairCount : Nat) (map : Nat → Nat) (livePairs : List Nat) (p : ScratchPair × Nat) :
    Option ScratchPair :=
  if p.2 + 1 ∈ livePairs then do
    let first ← remapValueNodeHandle capacity pairCount map p.1.first
    let second ← remapValueNodeHandle capacity pairCount map p.1.second
    return ⟨first, second⟩
  else some p.1

def remapScratchPairs (map : Nat → Nat) (livePairs : List Nat) : VmM Unit :=
  .updateOr ⟨.invalidProgram, "Invalid scratch-pair node handle during node GC."⟩ fun vm => do
    let pairs ← vm.scratchPairs.zipIdx.mapM (remapScratchPair vm.nodeCapacity vm.scratchPairs.length map livePairs)
    return { vm with scratchPairs := pairs }

def remapNodeBuilders (map : Nat → Nat) : VmM Unit :=
  .updateOr ⟨.invalidProgram, "Invalid node-builder child handle during node GC."⟩ fun vm => do
    let builders ← vm.nodeBuilders.mapM fun
      | none => some none
      | some b => (remapChildHandlesForCompaction vm.nodeCapacity map b.children).map fun cs => some { b with children := cs }
    return { vm with nodeBuilders := builders }

/-- A handle kept by the VM itself; `0` stands for none. -/
def remapVmHandle (capacity : Nat) (map : Nat → Nat) (h : Nat) : Option Nat :=
  if 0 < h then remapHandle capacity map h else some h

def remapProcessArgv (map : Nat → Nat) : VmM Unit :=
  .updateOr ⟨.invalidProgram, "Invalid process argv node handle during node GC."⟩ fun vm => do
    let h ← remapVmHandle vm.nodeCapacity map vm.processArgvNodeHandle
    return { vm with processArgvNodeHandle := h }

def remapUiDefaultWindowSize (map : Nat → Nat) : VmM Unit :=
  .updateOr ⟨.invalidProgram, "Invalid ui window size node handle during node GC."⟩ fun vm => do
    let h ← remapVmHandle vm.nodeCapacity map vm.uiDefaultWindowSizeNodeHandle
    return { vm with uiDefaultWindowSizeNodeHandle := h }

def remapUiEmptyEvent (map : Nat → Nat) : VmM Unit :=
  .updateOr ⟨.invalidProgram, "Invalid ui event node handle during node GC."⟩ fun vm => do
    let h ← remapVmHandle vm.nodeCapacity map vm.uiEmptyEventNodeHandle
    return { vm with uiEmptyEventNodeHandle := h }

def remapRoots (map : Nat → Nat) (livePairs : List Nat) : VmM Unit := do
  remapStack map
  remapLocals map
  remapCompletedTasks map
  remapParValues map
  remapScratchPairs map livePairs
  remapNodeBuilders map
  remapProcessArgv map
  remapUiDefaultWindowSize map
  remapUiEmptyEvent map

def countNodeGcAttempt (vm : Vm) : Vm :=
  { vm with counters := { vm.counters with nodeGcAttemptCount := vm.counters.nodeGcAttemptCount + 1 } }

def compactNodeArenasWithMap (env : Env) (extra : List Nat) : VmM (Nat → Nat) := do
  VmM.modify countNodeGcAttempt
  let vm ← VmM.get
  if vm.nodes.length = 0 then
    return fun _ => 0
  env.allocate "AIVMM004: node compaction allocation failed."
  let live ← VmM.lift (markLiveNodeHandles env · extra)
  let livePairs ← VmM.lift (markLiveScratchPairHandles env)
  let order := liveOrder vm live
  let arenas ← VmM.lift fun vm => compactNodes vm (place order) order ⟨[], [], []⟩
  VmM.modify (installArenas arenas)
  remapRoots (place order) livePairs
  return place order

/-!
## Compaction of the scratch pairs

`aivm_vm_compact_scratch_pairs`: the live pairs slide together, and the pair handles in them and in the root values
are rewritten. As with strings, a failed compaction is modelled with its roots unchanged.
-/

/-- `remap_value_scratch_pair_handle`. -/
def remapValueScratchPairHandle (pairCount : Nat) (map : Nat → Nat) : Value → Option Value
  | .pair k => (remapHandle pairCount map k).map .pair
  | v => some v

def remapPairHandles (pairCount : Nat) (map : Nat → Nat) (p : ScratchPair) : Option ScratchPair := do
  let first ← remapValueScratchPairHandle pairCount map p.first
  let second ← remapValueScratchPairHandle pairCount map p.second
  return ⟨first, second⟩

/-- The live pair handles in increasing order. -/
def livePairOrder (vm : Vm) (livePairs : List Nat) : List Nat :=
  (List.range' 1 vm.scratchPairs.length).filter (· ∈ livePairs)

/-- The live pairs in place, and all pair handles rewritten. -/
def slideScratchPairs (order : List Nat) (vm : Vm) : Option Vm := do
  let remap := remapValueScratchPairHandle vm.scratchPairs.length (place order)
  let pairs ← order.mapM fun k => do
    let p ← vm.lookupScratchPair k
    remapPairHandles vm.scratchPairs.length (place order) p
  let stack ← vm.stack.mapM remap
  let locals ← vm.locals.mapM remap
  let tasks ← vm.completedTasks.mapM fun t => (remap t.result).map fun r => { t with result := r }
  let parValues ← vm.parValues.mapM remap
  return { vm with
    scratchPairs := pairs, stack := stack, locals := locals, completedTasks := tasks, parValues := parValues }

def compactScratchPairs (env : Env) : VmM Unit := do
  let vm ← VmM.get
  if vm.scratchPairs.length = 0 then
    return
  env.allocate "AIVMM005: scratch-pair compaction allocation failed."
  let livePairs ← VmM.lift (markLiveScratchPairHandles env)
  VmM.updateOr ⟨.invalidProgram, "Invalid scratch-pair handle during pair compaction."⟩
    (slideScratchPairs (livePairOrder vm livePairs))

end Aivm
