import Aivm.Lib.Worklist
import Aivm.Model.Roots

/-!
# Marking live pairs and nodes

`aivm_vm_mark_live_scratch_pair_handles` and `aivm_vm_mark_live_node_handles`. A marked set is the list of marked
handles; the `live` flags of the source are membership in it.
-/

namespace Aivm

open Worklist

variable (env : Env) (vm : Vm)

/-! ## Scratch pairs -/

/-- `mark_live_scratch_pair_value` before the flag is tested: which pair a value refers to. -/
def pairToMark : Value → Except Fault (Option Nat)
  | .pair k =>
      if 0 < k ∧ k ≤ vm.scratchPairs.length then .ok (some k)
      else .error ⟨.invalidProgram, "Invalid scratch-pair handle during pair mark."⟩
  | _ => .ok none

def pairWorklistFull : Fault := ⟨.memoryPressure, "AIVMM005: scratch-pair mark worklist exceeded capacity."⟩

def pairPolicy : Policy Nat Fault :=
  .stack fun _ pending => if vm.scratchPairs.length ≤ pending.length then some pairWorklistFull else none

def pairFields (k : Nat) : Except Fault (List Value) :=
  match vm.lookupScratchPair k with
  | some p => .ok [p.first, p.second]
  | none => .ok []

def markLiveScratchPairHandles : Except Fault (List Nat) :=
  if vm.scratchPairs.length = 0 then .ok []
  else if env.allocates vm "AIVMM005: scratch-pair mark worklist allocation failed." then do
    let s ← visitItems (pairPolicy vm) (pairToMark vm) ⟨[], []⟩ vm.rootValues
    drain (pairPolicy vm) (pairToMark vm) (pairFields vm) pairWorklistFull vm.scratchPairs.length s
  else .error ⟨.memoryPressure, "AIVMM005: scratch-pair mark worklist allocation failed."⟩

/-- The components of the marked pairs, in the order of the pair array. -/
def livePairValues (livePairs : List Nat) : List Value :=
  vm.scratchPairs.zipIdx.flatMap fun (p, i) => if i + 1 ∈ livePairs then [p.first, p.second] else []

/-! ## Nodes -/

/-- The handle of a node value, and the invalid handle otherwise. -/
def Value.nodeHandle : Value → Nat
  | .node h => h
  | _ => 0

/-- `ENQUEUE_HANDLE` ignores handles that are out of range. -/
def nodeToMark (h : Nat) : Except Fault (Option Nat) :=
  .ok (if 0 < h ∧ h ≤ vm.nodes.length then some h else none)

/-- Extra handles out of range are refused. -/
def extraToMark (h : Nat) : Except Fault (Option Nat) :=
  if h = 0 then .ok none
  else if vm.nodes.length < h then .error ⟨.invalidProgram, "Invalid extra node handle during GC mark."⟩
  else .ok (some h)

def nodeQueueFull : Fault := ⟨.memoryPressure, "AIVMM003: node mark queue capacity exceeded."⟩

def nodePolicy : Policy Nat Fault :=
  .queue fun marked _ => if vm.nodeCapacity ≤ marked.length then some nodeQueueFull else none

def childHandles (h : Nat) : Except Fault (List Nat) :=
  match vm.lookupNode h with
  | none => .error ⟨.invalidProgram, "Invalid node handle during GC mark."⟩
  | some n =>
      if n.childCount = 0 ∨ n.childStart + n.childCount ≤ vm.nodeChildCapacity then .ok (vm.childrenOf n)
      else .error ⟨.invalidProgram, "Invalid child slot during GC mark."⟩

/-- The children of the active builders, in slot order. -/
def builderChildren : List Nat :=
  vm.nodeBuilders.flatMap fun
    | some b => b.children
    | none => []

/-- The handles enqueued before the extra handles, in the order of the source. -/
def nodeRoots (livePairs : List Nat) : List Nat :=
  [vm.processArgvNodeHandle, vm.uiDefaultWindowSizeNodeHandle, vm.uiEmptyEventNodeHandle] ++
    vm.rootValues.map Value.nodeHandle ++ (livePairValues vm livePairs).map Value.nodeHandle ++ builderChildren vm

def markLiveNodeHandles (extra : List Nat) : Except Fault (List Nat) :=
  if env.allocates vm "AIVMM003: node mark workspace allocation failed." then do
    let livePairs ← markLiveScratchPairHandles env vm
    let s ← visitItems (nodePolicy vm) (nodeToMark vm) ⟨[], []⟩ (nodeRoots vm livePairs)
    let s ← visitItems (nodePolicy vm) (extraToMark vm) s extra
    drain (nodePolicy vm) (nodeToMark vm) (childHandles vm) nodeQueueFull vm.nodes.length s
  else .error ⟨.memoryPressure, "AIVMM003: node mark workspace allocation failed."⟩

end Aivm
