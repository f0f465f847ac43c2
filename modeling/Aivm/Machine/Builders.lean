import Aivm.Machine.Nodes

/-!
# Builders and maps

`aivm_vm_node_builder.c`, `aivm_vm_map.c` and the instructions on them. A map is probed linearly from the slot its hash
selects. A record that is no longer active leaves its slot free.
-/

namespace Aivm

open Routine

variable (env : Env)

/-! ## Node builders -/

/-- The record of an active builder. -/
def lookupBuilder (vm : Vm) (handle : Nat) : Option NodeBuilderRecord :=
  if handle = 0 then none else (vm.nodeBuilders[handle - 1]?).join

/-- `aivm_vm_node_builder_new`. -/
def nodeBuilderNewRecord (kind id : StrPtr) : Routine env Nat := do
  let vm ← look
  let slot := freeSlot vm.nodeBuilders
  if nodeBuilderCapacity ≤ slot then
    throw ⟨.memoryPressure, "NODE_BUILDER_NEW capacity exceeded."⟩
  let kind ← readText env kind
  let id ← readText env id
  allocate ⟨.memoryPressure, "NODE_BUILDER_NEW allocation failed."⟩ "builder"
  putNodeBuilder slot (some ⟨kind, id, [], []⟩)
  return slot + 1

/-- `grow_array` is called for the next item: capacities are `0` and the powers of two from four on. -/
def arrayIsFull (count : Nat) : Bool := count = 0 ∨ 4 ≤ count ∧ 2 ^ Nat.log2 count = count

/-- `aivm_vm_node_builder_append_child`. -/
def nodeBuilderAppendChildRecord (builder child : Nat) : Routine env Unit := do
  let vm ← look
  match lookupBuilder vm builder, vm.lookupNode child with
  | some b, some _ =>
      if arrayIsFull b.children.length then
        allocate ⟨.memoryPressure, "NODE_BUILDER_APPEND_CHILD allocation failed."⟩ "builder children"
      putNodeBuilder (builder - 1) (some { b with children := b.children ++ [child] })
  | _, _ => throw ⟨.typeMismatch, "NODE_BUILDER_APPEND_CHILD requires (builder,node)."⟩

/-- The copy of an attribute value that a builder keeps; the text of an identifier is not copied. -/
def builderAttrValue (h : Heap) : AttrValue → Option AttrValue
  | .string p => (h.cstr p).map fun text => .string (.lit text)
  | a => some a

def wrongBuilderAttr : Routine env Unit :=
  throw ⟨.typeMismatch, "NODE_BUILDER_APPEND_ATTR requires (builder,single-attr-node)."⟩

/-- `aivm_vm_node_builder_append_attr`. -/
def nodeBuilderAppendAttrRecord (builder attr : Nat) : Routine env Unit := do
  let vm ← look
  match lookupBuilder vm builder, vm.lookupNode attr with
  | some b, some n =>
      if n.attrCount ≠ 1 then
        wrongBuilderAttr env
      match vm.nodeAttrs[n.attrStart]? with
      | none => wrongBuilderAttr env
      | some a =>
          let key ← readText env n.id
          let value ← deref (builderAttrValue vm.toHeap a.value)
          allocate ⟨.memoryPressure, "NODE_BUILDER_APPEND_ATTR allocation failed."⟩ "builder attrs"
          putNodeBuilder (builder - 1) (some { b with attrs := b.attrs ++ [⟨.lit key, value⟩] })
  | _, _ => wrongBuilderAttr env

/-- `aivm_vm_node_builder_finish`. -/
def nodeBuilderFinishRecord (builder : Nat) : Routine env Nat := do
  let vm ← look
  match lookupBuilder vm builder with
  | none => throw ⟨.typeMismatch, "NODE_BUILDER_FINISH requires builder operand."⟩
  | some b =>
      let k ← createNode (.lit b.kind) (.lit b.id) b.attrs (.builder (builder - 1))
      putNodeBuilder (builder - 1) none
      return k

/-- `NODE_BUILDER_NEW`. -/
def nodeBuilderNew : Routine env Unit := do
  let id ← pop
  let kind ← pop
  orFault ⟨.typeMismatch, "NODE_BUILDER_NEW requires (string,string)."⟩ do
    match kind.stringPtr, id.stringPtr with
    | some kind, some id =>
        let handle ← nodeBuilderNewRecord env kind id
        push (.nodeBuilder handle)
    | _, _ => giveUp

/-- `NODE_BUILDER_APPEND_CHILD`. -/
def nodeBuilderAppendChild : Routine env Unit := do
  let child ← pop
  let builder ← pop
  orFault ⟨.typeMismatch, s!"NODE_BUILDER_APPEND_CHILD requires (builder,node). " ++
      s!"actual=({builder.typeName},{child.typeName})"⟩ do
    match builder, child with
    | .nodeBuilder b, .node k =>
        nodeBuilderAppendChildRecord env b k
        push (.nodeBuilder b)
    | _, _ => giveUp

/-- `NODE_BUILDER_APPEND_ATTR`. -/
def nodeBuilderAppendAttr : Routine env Unit := do
  let attr ← pop
  let builder ← pop
  orFault ⟨.typeMismatch, "NODE_BUILDER_APPEND_ATTR requires (builder,node)."⟩ do
    match builder, attr with
    | .nodeBuilder b, .node k =>
        nodeBuilderAppendAttrRecord env b k
        push (.nodeBuilder b)
    | _, _ => giveUp

/-- `NODE_BUILDER_FINISH`. -/
def nodeBuilderFinish : Routine env Unit := do
  let builder ← pop
  orFault ⟨.typeMismatch, "NODE_BUILDER_FINISH requires builder operand."⟩ do
    match builder with
    | .nodeBuilder b =>
        let k ← nodeBuilderFinishRecord env b
        push (.node k)
    | _ => giveUp

/-! ## Maps -/

/-- `map_hash_string`. -/
def mapHashString (key : List Byte) : UInt64 :=
  key.foldl (fun hash b => (hash ^^^ UInt64.ofNat b.toNat) * 1099511628211) 1469598103934665603

/-- `map_slot_for`: the first slot from the home slot on that is free or holds the key. A table has a free slot. -/
def mapSlotFor (slots : List (Option MapSlot)) (key : List Byte) (hash : UInt64) : Option Nat :=
  let home := hash.toNat % slots.length
  ((List.range slots.length).map fun i => (home + i) % slots.length).find? fun slot =>
    match slots[slot]? with
    | some (some s) => s.hash = hash ∧ s.key = key
    | _ => true

/-- `sizeof(AivmMapSlot)`. -/
def mapSlotSize : Nat := 32

/-- The loop of `map_resize` over the occupied slots. -/
def rehash (slots : List (Option MapSlot)) (old : List (Option MapSlot)) : Option (List (Option MapSlot)) :=
  old.reduceOption.foldlM (fun slots s => do
    let slot ← mapSlotFor slots s.key s.hash
    return slots.set slot (some s)) slots

/-- `map_resize`. -/
def mapResize (m : MapRecord) (capacity : Nat) : Routine env MapRecord := do
  if (2 ^ 64 - 1) / mapSlotSize < capacity then
    giveUp
  if m.slots.length < capacity then
    admitGrowth ((capacity - m.slots.length) * mapSlotSize)
  allocate ⟨.memoryPressure, "MAP_BUILDER growth failed."⟩ "map slots"
  let slots ← deref (rehash (List.replicate capacity none) m.slots)
  return { m with slots := slots }

/-- The record of an active map. -/
def mapLookup (vm : Vm) (handle : Nat) : Option MapRecord :=
  if handle = 0 then none else (vm.maps[handle - 1]?).join

/-- `aivm_vm_map_builder_new`. -/
def mapBuilderNewRecord : Routine env Nat := do
  let vm ← look
  let slot := freeSlot vm.maps
  if mapCapacity ≤ slot then
    throw ⟨.memoryPressure, "MAP_BUILDER capacity exceeded."⟩
  let m ← mapResize env ⟨false, [], 0⟩ 16
  putMap slot (some m)
  return slot + 1

/-- `aivm_vm_map_builder_put_string_int`. -/
def mapBuilderPutStringIntRecord (handle : Nat) (key : List Byte) (value : Int) : Routine env Unit := do
  let vm ← look
  match mapLookup vm handle with
  | none => throw ⟨.typeMismatch, "MAP_BUILDER_PUT requires an active builder and string key."⟩
  | some m =>
      if m.frozen then
        throw ⟨.typeMismatch, "MAP_BUILDER_PUT requires an active builder and string key."⟩
      let m ← if m.slots.length * 7 ≤ (m.count + 1) * 10 then mapResize env m (m.slots.length * 2) else Pure.pure m
      putMap (handle - 1) (some m)
      let hash := mapHashString key
      let slot ← deref (mapSlotFor m.slots key hash)
      match m.slots[slot]?.join with
      | some s => putMap (handle - 1) (some { m with slots := m.slots.set slot (some { s with value := value }) })
      | none =>
          allocate ⟨.memoryPressure, "MAP_BUILDER key allocation failed."⟩ "map key"
          putMap (handle - 1)
            (some { m with slots := m.slots.set slot (some ⟨hash, key, value⟩), count := m.count + 1 })

/-- `aivm_vm_map_builder_finish`. -/
def mapBuilderFinishRecord (handle : Nat) : Routine env Unit := do
  let vm ← look
  match mapLookup vm handle with
  | none => throw ⟨.typeMismatch, "MAP_BUILDER_FINISH requires an active builder."⟩
  | some m =>
      if m.frozen then
        throw ⟨.typeMismatch, "MAP_BUILDER_FINISH requires an active builder."⟩
      putMap (handle - 1) (some { m with frozen := true })

/-- A finished map. -/
def frozenMap (vm : Vm) (handle : Nat) : Option MapRecord := (mapLookup vm handle).filter MapRecord.frozen

/-- `MAP_BUILDER_NEW`. -/
def mapBuilderNew : Routine env Unit := do
  let handle ← mapBuilderNewRecord env
  push (.mapBuilder handle)

/-- `MAP_BUILDER_PUT_STRING_INT`. -/
def mapBuilderPutStringInt : Routine env Unit := do
  let value ← pop
  let key ← pop
  let builder ← pop
  orFault ⟨.typeMismatch, "MAP_BUILDER_PUT_STRING_INT requires (mapBuilder,string,int)."⟩ do
    match builder, key.stringPtr, value with
    | .mapBuilder handle, some p, .int i =>
        let key ← readText env p
        mapBuilderPutStringIntRecord env handle key i
        push (.mapBuilder handle)
    | _, _, _ => giveUp

/-- `MAP_BUILDER_FINISH`. -/
def mapBuilderFinish : Routine env Unit := do
  let builder ← pop
  orFault ⟨.typeMismatch, "MAP_BUILDER_FINISH requires mapBuilder operand."⟩ do
    match builder with
    | .mapBuilder handle =>
        mapBuilderFinishRecord env handle
        push (.map handle)
    | _ => giveUp

/-- `MAP_COUNT`. -/
def mapCount : Routine env Unit := do
  let v ← pop
  let vm ← look
  orFault ⟨.typeMismatch, "MAP_COUNT requires map operand."⟩ do
    match v with
    | .map handle =>
        match frozenMap vm handle with
        | some m => push (.int m.count)
        | none => giveUp
    | _ => giveUp

/-- The value that a finished map has for a string key, if any. -/
def popMapLookup : Routine env (Option Int) := do
  let key ← pop
  let v ← pop
  let vm ← look
  match v, key.stringPtr with
  | .map handle, some p =>
      match frozenMap vm handle with
      | some m =>
          let key ← readText env p
          let slot ← deref (mapSlotFor m.slots key (mapHashString key))
          return m.slots[slot]?.join.map MapSlot.value
      | none => giveUp
  | _, _ => giveUp

/-- `MAP_HAS_STRING`. -/
def mapHasString : Routine env Unit :=
  orFault ⟨.typeMismatch, "Map lookup requires (map,string)."⟩ do
    let found ← popMapLookup env
    push (.bool found.isSome)

/-- `MAP_GET_STRING_INT_OR`: an operand that is missing is reported as one that is no integer. -/
def mapGetStringIntOr : Routine env Unit := do
  let fallback ← override ⟨.typeMismatch, "MAP_GET_STRING_INT_OR requires integer fallback."⟩ do
    let v ← pop
    match v with
    | .int i => return i
    | _ => giveUp
  orFault ⟨.typeMismatch, "Map lookup requires (map,string)."⟩ do
    let found ← popMapLookup env
    push (.int (found.getD fallback))

end Aivm
