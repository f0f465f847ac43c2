import Aivm.Gc.BytesCompaction
import Aivm.Nodes.Create

/-!
# Copies across a worker boundary

`copy_worker_boundary_value`: a value of one VM is copied into another one, each node and each pair once. The handles
already copied are remembered in two maps. Storage of the source VM is foreign to the destination, so that it is seen
there as strings outside the arena.
-/

namespace Aivm

/-- `aivm_vm_value_type_name`. -/
def Value.typeName : Value → String
  | .void => "void"
  | .int _ => "int"
  | .number _ => "number"
  | .bool _ => "bool"
  | .null => "null"
  | .string _ => "string"
  | .bytes _ _ => "bytes"
  | .node _ => "node"
  | .pair _ => "pair"
  | .unknown => "unknown"
  | .nodeBuilder _ => "nodeBuilder"
  | .mapBuilder _ => "mapBuilder"
  | .map _ => "map"
  | .task _ => "task"
  | .workerRef _ => "workerRef"
  | .workerTasks _ => "workerTasks"

/-! ## Scratch pairs and bytes -/

/-- `aivm_vm_create_scratch_pair`. -/
def createScratchPair (first second : Value) : VmM Nat := do
  let vm ← VmM.get
  if scratchPairCapacity ≤ vm.scratchPairs.length then
    VmM.throw ⟨.memoryPressure, "AIVMM005: scratch pair capacity exceeded."⟩
  VmM.modify fun vm => { vm with scratchPairs := vm.scratchPairs ++ [⟨first, second⟩] }
  return vm.scratchPairs.length + 1

/-! ## The copy -/

/-- A string of another VM. -/
def foreignString (src : Heap) : StrPtr → Option StrPtr
  | .null => some .null
  | p => (src.cstr p).map .lit

def foreignAttr (src : Heap) (a : NodeAttr) : Option NodeAttr := do
  let key ← foreignString src a.key
  match a.value with
  | .identifier p => return ⟨key, .identifier (← foreignString src p)⟩
  | .string p => return ⟨key, .string (← foreignString src p)⟩
  | v => return ⟨key, v⟩

/-- The handles copied so far and those being copied. `holds` tells whether anything has been created in the
destination; the source keeps no such flag, and nothing it does depends on it. -/
structure BoundaryMaps where
  nodes : List (Nat × Nat)
  nodesBusy : List Nat
  pairs : List (Nat × Nat)
  pairsBusy : List Nat
  holds : Bool
deriving DecidableEq, Repr

/-- How nodes and strings are created in the destination, given whether the copy already holds something there. -/
structure CopyStore where
  node : Bool → StrPtr → StrPtr → List NodeAttr → List Nat → VmM Nat
  string : Bool → StrPtr → VmM StrPtr

/-- The store of the source: whether the copy holds something makes no difference. -/
def vmStore (env : Env) : CopyStore where
  node _ kind id attrs children := createNodeRecord env kind id attrs (.array children)
  string _ p := copyStringToArena env p

section Copy

variable (env : Env) (store : CopyStore) (src : Vm)

def boundaryFault (detail : String) : Fault := ⟨.invalidProgram, detail⟩

/-- The loop over the child slots of a node. -/
def copyWorkerBoundaryChildren (copy : Nat → BoundaryMaps → VmM (Nat × BoundaryMaps)) :
    List Nat → BoundaryMaps → VmM (List Nat × BoundaryMaps)
  | [], maps => return ([], maps)
  | slot :: slots, maps =>
      match src.nodeChildren[slot]? with
      | none => VmM.throw (boundaryFault "ASYNC_CALL worker node child slot was invalid.")
      | some c => do
          let (k, maps) ← copy c maps
          let (ks, maps) ← copyWorkerBoundaryChildren copy slots maps
          return (k :: ks, maps)

/-- `copy_worker_boundary_node`. A handle met while it is being copied is refused, so the recursion is not deeper
than the number of nodes. -/
def copyWorkerBoundaryNode : Nat → Nat → BoundaryMaps → VmM (Nat × BoundaryMaps)
  | 0, _, _ => VmM.throw (boundaryFault "ASYNC_CALL worker node graph cycle was invalid.")
  | fuel + 1, h, maps =>
      match src.lookupNode h with
      | none => VmM.throw (boundaryFault "ASYNC_CALL worker node handle was invalid.")
      | some n =>
          match maps.nodes.lookup h with
          | some k => return (k, maps)
          | none =>
              if h ∈ maps.nodesBusy then
                VmM.throw (boundaryFault "ASYNC_CALL worker node graph cycle was invalid.")
              else do
                env.allocate "AIVMM005: worker node copy scratch allocation failed."
                if n.attrCount ≠ 0 ∧ src.nodeAttrs.length < n.attrStart + n.attrCount then
                  VmM.throw (boundaryFault "ASYNC_CALL worker node attr slot was invalid.")
                let (children, maps) ← copyWorkerBoundaryChildren src (copyWorkerBoundaryNode fuel)
                  (List.range' n.childStart n.childCount) { maps with nodesBusy := h :: maps.nodesBusy }
                let kind ← VmM.deref (foreignString src.toHeap n.kind)
                let id ← VmM.deref (foreignString src.toHeap n.id)
                let attrs ← VmM.deref ((src.attrsOf n).mapM (foreignAttr src.toHeap))
                let k ← store.node maps.holds kind id attrs children
                return (k, { maps with nodes := (h, k) :: maps.nodes, holds := true })

/-- `copy_worker_boundary_pair`. -/
def copyWorkerBoundaryPair (copy : Value → BoundaryMaps → VmM (Value × BoundaryMaps)) (h : Nat)
    (maps : BoundaryMaps) : VmM (Nat × BoundaryMaps) :=
  match src.lookupScratchPair h with
  | none => VmM.throw (boundaryFault "ASYNC_CALL worker pair handle was invalid.")
  | some p =>
      match maps.pairs.lookup h with
      | some k => return (k, maps)
      | none =>
          if h ∈ maps.pairsBusy then
            VmM.throw (boundaryFault "ASYNC_CALL worker pair graph cycle was invalid.")
          else do
            let (first, maps) ← copy p.first { maps with pairsBusy := h :: maps.pairsBusy }
            let (second, maps) ← copy p.second maps
            let k ← createScratchPair first second
            return (k, { maps with pairs := (h, k) :: maps.pairs, holds := true })

/-- `copy_worker_boundary_value_with_context`; the fuel bounds the nesting of pairs. -/
def copyWorkerBoundaryValueWithContext : Nat → String → Value → BoundaryMaps → VmM (Value × BoundaryMaps)
  | 0, _, _, _ => VmM.throw (boundaryFault "ASYNC_CALL worker pair graph cycle was invalid.")
  | fuel + 1, direction, v, maps =>
      match v with
      | .void => return (.void, maps)
      | .int i => return (.int i, maps)
      | .number x => return (.number x, maps)
      | .bool b => return (.bool b, maps)
      | .null => return (.null, maps)
      | .string .null => VmM.throw ⟨.typeMismatch, "Worker boundary string value must be non-null."⟩
      | .string p => do
          let p ← VmM.deref (foreignString src.toHeap p)
          let q ← VmM.onFail (VmM.setVmError
            ⟨.memoryPressure, "AIVMM001: worker string copy exceeded arena capacity."⟩) (store.string maps.holds p)
          return (.string q, { maps with holds := true })
      | .bytes d n =>
          if 0 < n ∧ d = .null then
            VmM.throw ⟨.typeMismatch, "Worker boundary bytes value must provide data."⟩
          else do
            let data ← VmM.deref (src.bytesAt d n)
            let q ← VmM.onFail (VmM.setVmError
              ⟨.memoryPressure, "AIVMM002: worker bytes copy exceeded arena capacity."⟩) (bytesArenaAlloc env data)
            return (.bytes q n, { maps with holds := true })
      | .node h => do
          let (k, maps) ← copyWorkerBoundaryNode env store src (src.nodes.length + 1) h maps
          return (.node k, maps)
      | .pair h => do
          let (k, maps) ← copyWorkerBoundaryPair src (copyWorkerBoundaryValueWithContext fuel "pair value") h maps
          return (.pair k, maps)
      | v => VmM.throw (boundaryFault
          s!"ASYNC_CALL worker {direction} must be immutable scalar, string, or bytes. type={v.typeName}")

/-- `copy_worker_boundary_value` with the destination's store. -/
def copyWorkerBoundaryValueInto (direction : String) (v : Value) : VmM Value := do
  env.allocate "AIVMM005: worker boundary copy map allocation failed."
  let (w, _) ← copyWorkerBoundaryValueWithContext env store src (src.scratchPairs.length + 2) direction v
    ⟨[], [], [], [], false⟩
  return w

end Copy

section Equations

variable {env : Env} {store : CopyStore} {src : Vm} {fuel : Nat} {direction : String} {maps : BoundaryMaps}

theorem copyWorkerBoundaryValueWithContext_string {p : StrPtr} (hp : p ≠ .null) :
    copyWorkerBoundaryValueWithContext env store src (fuel + 1) direction (.string p) maps = (do
      let p ← VmM.deref (foreignString src.toHeap p)
      let q ← VmM.onFail (VmM.setVmError
        ⟨.memoryPressure, "AIVMM001: worker string copy exceeded arena capacity."⟩) (store.string maps.holds p)
      return (.string q, { maps with holds := true })) := by
  cases p with
  | null => exact absurd rfl hp
  | _ => rfl

theorem copyWorkerBoundaryValueWithContext_bytes {d n} :
    copyWorkerBoundaryValueWithContext env store src (fuel + 1) direction (.bytes d n) maps =
      if 0 < n ∧ d = .null then
        VmM.throw ⟨.typeMismatch, "Worker boundary bytes value must provide data."⟩
      else do
        let data ← VmM.deref (src.bytesAt d n)
        let q ← VmM.onFail (VmM.setVmError
          ⟨.memoryPressure, "AIVMM002: worker bytes copy exceeded arena capacity."⟩) (bytesArenaAlloc env data)
        return (.bytes q n, { maps with holds := true }) := rfl

theorem copyWorkerBoundaryValueWithContext_node {h} :
    copyWorkerBoundaryValueWithContext env store src (fuel + 1) direction (.node h) maps = (do
      let (k, maps) ← copyWorkerBoundaryNode env store src (src.nodes.length + 1) h maps
      return (.node k, maps)) := rfl

theorem copyWorkerBoundaryValueWithContext_pair {h} :
    copyWorkerBoundaryValueWithContext env store src (fuel + 1) direction (.pair h) maps = (do
      let (k, maps) ← copyWorkerBoundaryPair src
        (copyWorkerBoundaryValueWithContext env store src fuel "pair value") h maps
      return (.pair k, maps)) := rfl

end Equations

/-- `copy_worker_boundary_value`: from `src` into the VM it runs in. -/
def copyWorkerBoundaryValue (env : Env) (src : Vm) (direction : String) (v : Value) : VmM Value :=
  copyWorkerBoundaryValueInto env (vmStore env) src direction v

end Aivm
