import Aivm.Gc.NodeCompaction
import Aivm.Strings.Arena

/-!
# Node allocation

`aivm_vm_node_arena.c` and `aivm_vm_create_node_record`: the input strings are set aside, room is made in the string
arena and in the node arenas, and the record is appended.
-/

namespace Aivm

/-! ## Growth of the node arenas -/

/-- `next_capacity`: double until `needed` fits. -/
def nextCapacity (needed : Nat) : Nat → Nat → Nat
  | 0, capacity => capacity
  | fuel + 1, capacity => if capacity < needed then nextCapacity needed fuel (capacity * 2) else capacity

def grownCapacity (current needed : Nat) : Nat := nextCapacity needed needed (max current 1)

def nodeRecordSize : Nat := 48
def nodeAttrSize : Nat := 24
def nodeChildSize : Nat := 8

/-- `aivm_vm_try_grow_node_arenas`. An arena that has been grown stays so when a later one cannot be. -/
def tryGrowNodeArenas (env : Env) (neededNodes neededAttrs neededChildren : Nat) (vm : Vm) : Bool × Vm :=
  if vm.runtimeProfile ≠ .tooling then (false, vm)
  else
    let nodes := grownCapacity vm.nodeCapacity neededNodes
    let attrs := grownCapacity vm.nodeAttrCapacity neededAttrs
    let children := grownCapacity vm.nodeChildCapacity neededChildren
    if nodes = vm.nodeCapacity ∧ attrs = vm.nodeAttrCapacity ∧ children = vm.nodeChildCapacity then (true, vm)
    else
      let growth := (nodes - vm.nodeCapacity) * nodeRecordSize + (attrs - vm.nodeAttrCapacity) * nodeAttrSize +
        (children - vm.nodeChildCapacity) * nodeChildSize
      match hostMemoryGrowthAvailable env growth vm with
      | (false, vm) => (false, vm)
      | (true, vm) =>
          if vm.nodeCapacity < nodes ∧ ¬ env.allocates vm "realloc nodes" then (false, vm)
          else
            let vm := { vm with nodeCapacity := max vm.nodeCapacity nodes }
            if vm.nodeAttrCapacity < attrs ∧ ¬ env.allocates vm "realloc node_attrs" then (false, vm)
            else
              let vm := { vm with nodeAttrCapacity := max vm.nodeAttrCapacity attrs }
              if vm.nodeChildCapacity < children ∧ ¬ env.allocates vm "realloc node_children" then (false, vm)
              else (true, { vm with nodeChildCapacity := max vm.nodeChildCapacity children })

/-- `aivm_vm_should_attempt_proactive_node_gc`. -/
def shouldAttemptProactiveNodeGc (vm : Vm) (incomingAttrs incomingChildren : Nat) : Prop :=
  nodeGcIntervalAllocations ≤ vm.nodeAllocationsSinceGc ∧
    (vm.nodeCapacity ≤ vm.nodes.length ∨ vm.nodeAttrCapacity ≤ vm.nodeAttrs.length + incomingAttrs ∨
      vm.nodeChildCapacity ≤ vm.nodeChildren.length + incomingChildren)

instance (vm : Vm) (a c : Nat) : Decidable (shouldAttemptProactiveNodeGc vm a c) := by
  unfold shouldAttemptProactiveNodeGc
  infer_instance

/-! ## Inputs -/

/-- Where the child array of a call lies: in the caller's own memory, or in an active builder. -/
inductive ChildSource where
  | array (handles : List Nat)
  | builder (slot : Nat)
deriving DecidableEq, Repr

/-- The child handles that reading the array yields now. -/
def ChildSource.read (vm : Vm) : ChildSource → List Nat
  | .array handles => handles
  | .builder slot =>
      match vm.nodeBuilders[slot]? with
      | some (some b) => b.children
      | _ => []

/-- `snapshot_node_input_string`: a string in the arena is copied out of it. -/
def snapshotNodeInputString (env : Env) (input : StrPtr) : VmM (List Byte) := do
  let vm ← VmM.get
  let text ← VmM.deref (vm.cstr input)
  env.allocateIf (vm.pointerInStringArena input) "AIVMM001: string snapshot allocation failed."
  return text

/-- A missing key or string counts as empty. -/
def StrPtr.orEmpty : StrPtr → StrPtr
  | .null => .lit []
  | p => p

/-- The key and value of an attribute, set aside. -/
def snapshotNodeAttr (env : Env) (a : NodeAttr) : VmM (List Byte × AttrMeaning) := do
  let key ← snapshotNodeInputString env a.key.orEmpty
  match a.value with
  | .identifier p => return (key, .identifier (← snapshotNodeInputString env p.orEmpty))
  | .string p => return (key, .string (← snapshotNodeInputString env p.orEmpty))
  | .int i => return (key, .int i)
  | .bool b => return (key, .bool b)

def attrStringBytes : List Byte × AttrMeaning → Nat
  | (key, .identifier t) => key.length + 1 + (t.length + 1)
  | (key, .string t) => key.length + 1 + (t.length + 1)
  | (key, _) => key.length + 1

/-- The bytes reserved for all strings of a node. -/
def nodeStringBytes (kind id : List Byte) (attrs : List (List Byte × AttrMeaning)) : Nat :=
  kind.length + 1 + id.length + 1 + (attrs.map attrStringBytes).sum

/-! ## Collection during an allocation -/

/-- Collect with the children as extra roots. The child array is read again afterwards, to be rewritten with the
handle map: a builder's array has been rewritten by the collection by then. -/
def collectNodesFor (env : Env) (detail : String) (children : ChildSource) : VmM ChildSource := do
  env.allocate "AIVMM005: node compaction scratch allocation failed."
  let vm ← VmM.get
  let map ← compactNodeArenasWithMap env (children.read vm)
  let vm ← VmM.get
  match remapChildHandlesForCompaction vm.nodeCapacity map (children.read vm) with
  | none => VmM.throw ⟨.invalidProgram, detail⟩
  | some handles =>
      VmM.modify fun vm => { vm with nodeAllocationsSinceGc := 0 }
      return .array handles

def nodeArenaExceeded : Fault := ⟨.memoryPressure, "AIVMM005: node arena capacity exceeded."⟩

def countNodeArenaPressure (vm : Vm) : Vm :=
  { vm with counters := { vm.counters with nodeArenaPressureCount := vm.counters.nodeArenaPressureCount + 1 } }

/-- A node with so many attributes and children does not fit the arenas. -/
def nodeArenasFull (vm : Vm) (attrCount childCount : Nat) : Prop :=
  vm.nodeCapacity < vm.nodes.length + 1 ∨ vm.nodeAttrCapacity < vm.nodeAttrs.length + attrCount ∨
    vm.nodeChildCapacity < vm.nodeChildren.length + childCount

instance (vm : Vm) (a c : Nat) : Decidable (nodeArenasFull vm a c) := by
  unfold nodeArenasFull
  infer_instance

/-- The proactive collection, which growth of a tooling VM replaces. -/
def collectProactively (env : Env) (attrCount childCount : Nat) (children : ChildSource) : VmM ChildSource := do
  let vm ← VmM.get
  if shouldAttemptProactiveNodeGc vm attrCount childCount then
    let (grown, vm) := tryGrowNodeArenas env (vm.nodes.length + 1) (vm.nodeAttrs.length + attrCount)
      (vm.nodeChildren.length + childCount) vm
    VmM.modify fun _ => vm
    if grown then
      return children
    else
      collectNodesFor env "Invalid child handle remap during proactive node GC." children
  else
    return children

/-- The collection forced by full arenas. -/
def collectIfFull (env : Env) (attrCount childCount : Nat) (children : ChildSource) : VmM ChildSource := do
  let vm ← VmM.get
  if nodeArenasFull vm attrCount childCount then
    let children ← collectNodesFor env "Invalid child handle remap during node GC." children
    let vm ← VmM.get
    if nodeArenasFull vm attrCount childCount then
      VmM.onFail countNodeArenaPressure (VmM.throw nodeArenaExceeded)
    else
      return children
  else
    return children

/-! ## The record -/

/-- An attribute with its strings in the arena. -/
def copyNodeAttr (env : Env) (a : List Byte × AttrMeaning) : VmM NodeAttr := do
  let key ← copyStringRangeToArena env a.1
  match a.2 with
  | .identifier t => return ⟨key, .identifier (← copyStringRangeToArena env t)⟩
  | .string t => return ⟨key, .string (← copyStringRangeToArena env t)⟩
  | .int i => return ⟨key, .int i⟩
  | .bool b => return ⟨key, .bool b⟩

/-- Append a record with its attributes and children. -/
def appendNode (kind id : StrPtr) (attrs : List NodeAttr) (children : List Nat) (vm : Vm) : Vm :=
  let nodes := vm.nodes ++ [⟨kind, id, vm.nodeAttrs.length, attrs.length, vm.nodeChildren.length, children.length⟩]
  let nodeAttrs := vm.nodeAttrs ++ attrs
  let nodeChildren := vm.nodeChildren ++ children
  { vm with
    nodes := nodes
    nodeAttrs := nodeAttrs
    nodeChildren := nodeChildren
    nodeAllocationsSinceGc := vm.nodeAllocationsSinceGc + 1
    counters := { vm.counters with
      nodeHighWater := max vm.counters.nodeHighWater nodes.length
      nodeAttrHighWater := max vm.counters.nodeAttrHighWater nodeAttrs.length
      nodeChildHighWater := max vm.counters.nodeChildHighWater nodeChildren.length } }

/-- The last stage: copy the strings into the arena and append the record. -/
def writeNode (env : Env) (kind id : List Byte) (attrs : List (List Byte × AttrMeaning)) (children : ChildSource) :
    VmM Nat := do
  let kind ← copyStringRangeToArena env kind
  let id ← copyStringRangeToArena env id
  let attrs ← attrs.mapM (copyNodeAttr env)
  let vm ← VmM.get
  VmM.modify (appendNode kind id attrs (children.read vm))
  return vm.nodes.length + 1

/-- `aivm_vm_create_node_record`. -/
def createNodeRecord (env : Env) (kind id : StrPtr) (attrs : List NodeAttr) (children : ChildSource) : VmM Nat :=
  if kind = .null ∨ id = .null then VmM.giveUp
  else do
    env.allocateIf (attrs ≠ []) "AIVMM005: node allocation scratch allocation failed."
    let vm ← VmM.get
    let childCount := (children.read vm).length
    let kind ← snapshotNodeInputString env kind
    let id ← snapshotNodeInputString env id
    let attrs ← attrs.mapM (snapshotNodeAttr env)
    stringArenaReserve env (nodeStringBytes kind id attrs)
    let children ← collectProactively env attrs.length childCount children
    let children ← collectIfFull env attrs.length childCount children
    writeNode env kind id attrs children

/-!
## Room for an allocation

When an allocation finds room in the string arena and in the node arenas, so that nothing moves. The source asks these
questions while it allocates; here they are asked beforehand.
-/

variable {env : Env} {vm : Vm}

/-- An attribute as node creation reads it: missing strings count as empty. -/
def NodeAttr.orEmpty (a : NodeAttr) : NodeAttr :=
  ⟨a.key.orEmpty, match a.value with
    | .identifier p => .identifier p.orEmpty
    | .string p => .string p.orEmpty
    | v => v⟩

/-- The node arenas after the proactive stage, and whether it got by without a collection. -/
def growProactively (env : Env) (attrCount childCount : Nat) (vm : Vm) : Bool × Vm :=
  if shouldAttemptProactiveNodeGc vm attrCount childCount then
    tryGrowNodeArenas env (vm.nodes.length + 1) (vm.nodeAttrs.length + attrCount) (vm.nodeChildren.length + childCount) vm
  else (true, vm)

/-- The node arenas have room, after growing if they may. -/
def nodesFit (env : Env) (attrCount childCount : Nat) (vm : Vm) : Prop :=
  (growProactively env attrCount childCount vm).1 = true ∧
    ¬ nodeArenasFull (growProactively env attrCount childCount vm).2 attrCount childCount

instance (a c : Nat) : Decidable (nodesFit env a c vm) := by
  unfold nodesFit
  infer_instance

/-- The texts an allocation works with. -/
def nodeTexts (h : Heap) (kind id : StrPtr) (attrs : List NodeAttr) :
    Option (List Byte × List Byte × List (List Byte × AttrMeaning)) := do
  let kind ← h.cstr kind
  let id ← h.cstr id
  let attrs ← attrs.mapM fun a => h.attrMeaning a.orEmpty
  return (kind, id, attrs)

/-- A node can be allocated without compacting the strings or collecting the nodes. -/
def createsInPlace (env : Env) (kind id : StrPtr) (attrs : List NodeAttr) (childCount : Nat) (vm : Vm) : Prop :=
  ∀ t ∈ nodeTexts vm.toHeap kind id attrs, reserveFits env (nodeStringBytes t.1 t.2.1 t.2.2) vm ∧
    nodesFit env t.2.2.length childCount
      (ensureStringArenaCapacity env (vm.stringArena.length + nodeStringBytes t.1 t.2.1 t.2.2) vm)

instance (kind id : StrPtr) (attrs : List NodeAttr) (n : Nat) : Decidable (createsInPlace env kind id attrs n vm) := by
  unfold createsInPlace
  infer_instance

/-- A string can be copied without compacting the strings. -/
def copiesInPlace (env : Env) (p : StrPtr) (vm : Vm) : Prop :=
  vm.pointerInStringArena p = true ∨
    ∀ text ∈ vm.cstr p, lookupStringOffset vm text ≠ none ∨ reserveFits env (text.length + 1) vm

instance (p : StrPtr) : Decidable (copiesInPlace env p vm) := by
  unfold copiesInPlace
  infer_instance

end Aivm
