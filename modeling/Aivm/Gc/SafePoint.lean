import Aivm.Gc.NodeCompaction
import Aivm.Gc.BytesCompaction
import Aivm.Nodes.Create

/-!
# Safe points

`aivm_collect_safe_point`: nodes, pairs, strings and bytes are compacted in this order. The two tests at the end
decide what a return collects.
-/

namespace Aivm

def collectSafePointInternal (env : Env) (collectNodes collectBytes : Bool) : VmM Unit := do
  let vm ← VmM.get
  if collectNodes ∧ 0 < vm.nodes.length then
    let _ ← compactNodeArenasWithMap env []
    VmM.modify fun vm => { vm with nodeAllocationsSinceGc := 0 }
  if collectNodes then
    compactScratchPairs env
    compactStringArena env
  if collectBytes then
    compactBytesArena env

def collectSafePoint (env : Env) : VmM Unit := collectSafePointInternal env true true

def pressureThreshold (capacity : Nat) : Nat :=
  capacity / nodeGcPressureThresholdDenominator * nodeGcPressureThresholdNumerator

/-- `aivm_vm_should_attempt_return_safe_point`. -/
def shouldAttemptReturnSafePoint (vm : Vm) : Bool :=
  nodeGcReturnSafepointAllocations ≤ vm.nodeAllocationsSinceGc ∧
    (vm.runtimeProfile ≠ .tooling ∨ pressureThreshold vm.nodeCapacity ≤ vm.nodes.length ∨
      pressureThreshold vm.nodeAttrCapacity ≤ vm.nodeAttrs.length ∨
      pressureThreshold vm.nodeChildCapacity ≤ vm.nodeChildren.length)

/-- `aivm_vm_should_attempt_bytes_return_safe_point`. -/
def shouldAttemptBytesReturnSafePoint (vm : Vm) : Bool :=
  vm.bytesArenaGcThreshold < vm.bytesArenaCapacity ∧ vm.bytesArenaGcThreshold ≤ vm.bytesArena.length

/-- `aivm_vm_try_grow_pressure_node_arenas`: a tooling VM grows the arenas that are nearly full. -/
def tryGrowPressureNodeArenas (env : Env) (vm : Vm) : Bool × Vm :=
  let needed (count capacity : Nat) := if pressureThreshold capacity ≤ count then capacity + 1 else count
  tryGrowNodeArenas env (needed vm.nodes.length vm.nodeCapacity) (needed vm.nodeAttrs.length vm.nodeAttrCapacity)
    (needed vm.nodeChildren.length vm.nodeChildCapacity) vm

end Aivm
