import Aivm.Machine.Strings

/-!
# Node instructions

The instructions of `aivm_step` that read nodes and make them, with `create_runtime_node_from_value`. A node cannot be
changed: an instruction that extends one makes a new record.
-/

namespace Aivm

open Routine

variable (env : Env)

/-! ## Operands -/

/-- Pop a node and its record or fail with the text for the value popped. -/
def popNode (fault : Value → Vm → Fault) (h : ∀ v vm, (fault v vm).Regular) : Routine env NodeRecord := do
  let v ← pop
  let vm ← look
  match v with
  | .node k =>
      match vm.lookupNode k with
      | some n => return n
      | none => throw (fault v vm) (h v vm)
  | _ => throw (fault v vm) (h v vm)

/-- Pop an index and the record of a node or fail. -/
def popNodeIndex (f : Fault) (h : f.Regular) : Routine env (NodeRecord × Int) := do
  let index ← pop
  let v ← pop
  let vm ← look
  match v, index with
  | .node k, .int i =>
      match vm.lookupNode k with
      | some n => return (n, i)
      | none => throw f h
  | _, _ => throw f h

/-- Make a node without children that are not given, and push it. -/
def pushNode (kind id : StrPtr) (attrs : List NodeAttr) (children : ChildSource) : Routine env Unit := do
  let k ← createNode kind id attrs children
  push (.node k)

/-! ## Reading nodes -/

/-- `NODE_KIND`. -/
def nodeKind : Routine env Unit := do
  let n ← popNode env (fun _ _ => ⟨.typeMismatch, "NODE_KIND requires node operand."⟩)
    (by simp [Fault.Regular, machineDiagnostics])
  pushStringCopy env n.kind

/-- `NODE_ID`. -/
def nodeId : Routine env Unit := do
  let n ← popNode env (fun _ _ => ⟨.typeMismatch, "NODE_ID requires node operand."⟩)
    (by simp [Fault.Regular, machineDiagnostics])
  pushStringCopy env n.id

/-- `ATTR_COUNT`. -/
def attrCount : Routine env Unit := do
  let n ← popNode env (fun _ _ => ⟨.typeMismatch, "ATTR_COUNT requires node operand."⟩)
    (by simp [Fault.Regular, machineDiagnostics])
  push (.int n.attrCount)

/-- `CHILD_COUNT`. -/
def childCount : Routine env Unit := do
  let n ← popNode env (fun v vm => ⟨.typeMismatch, s!"CHILD_COUNT requires node operand; actual={v.typeName} " ++
    s!"handle={v.handleMember} nodeCount={vm.nodes.length}."⟩) (by simp [Fault.Regular, machineDiagnostics, toString])
  push (.int n.childCount)

/-- The attribute at an index, if the node has so many. -/
def attrAt (n : NodeRecord) (i : Int) : Routine env (Option NodeAttr) :=
  if 0 ≤ i ∧ i.toNat < n.attrCount then do
    let vm ← look
    let a ← deref vm.nodeAttrs[n.attrStart + i.toNat]?
    return some a
  else return none

/-- The pointer that an attribute keeps as its string value. -/
def AttrValue.stringValue : AttrValue → StrPtr
  | .identifier p => p
  | .string p => p
  | _ => .null

/-- `ATTR_KEY`. -/
def attrKey : Routine env Unit := do
  let (n, i) ← popNodeIndex env ⟨.typeMismatch, "ATTR_KEY requires (node,int)."⟩
    (by simp [Fault.Regular, machineDiagnostics])
  match ← attrAt env n i with
  | some a => pushStringCopy env a.key
  | none => pushStringCopy env (litPtr "")

/-- `ATTR_VALUE_KIND`. -/
def attrValueKind : Routine env Unit := do
  let (n, i) ← popNodeIndex env ⟨.typeMismatch, "ATTR_VALUE_KIND requires (node,int)."⟩
    (by simp [Fault.Regular, machineDiagnostics])
  match (← attrAt env n i).map NodeAttr.value with
  | some (.identifier _) => pushStringCopy env (litPtr "identifier")
  | some (.string _) => pushStringCopy env (litPtr "string")
  | some (.int _) => pushStringCopy env (litPtr "int")
  | some (.bool _) => pushStringCopy env (litPtr "bool")
  | none => pushStringCopy env (litPtr "")

/-- `ATTR_VALUE_STRING`. -/
def attrValueString : Routine env Unit := do
  let (n, i) ← popNodeIndex env ⟨.typeMismatch, "ATTR_VALUE_STRING requires (node,int)."⟩
    (by simp [Fault.Regular, machineDiagnostics])
  let a ← attrAt env n i
  match (a.map fun a => a.value.stringValue).getD .null with
  | .null => pushStringCopy env (litPtr "")
  | p => pushStringCopy env p

/-- `ATTR_VALUE_INT`. -/
def attrValueInt : Routine env Unit := do
  let (n, i) ← popNodeIndex env ⟨.typeMismatch, "ATTR_VALUE_INT requires (node,int)."⟩
    (by simp [Fault.Regular, machineDiagnostics])
  match (← attrAt env n i).map NodeAttr.value with
  | some (.int x) => push (.int x)
  | _ => push (.int 0)

/-- `ATTR_VALUE_BOOL`. -/
def attrValueBool : Routine env Unit := do
  let (n, i) ← popNodeIndex env ⟨.typeMismatch, "ATTR_VALUE_BOOL requires (node,int)."⟩
    (by simp [Fault.Regular, machineDiagnostics])
  match (← attrAt env n i).map NodeAttr.value with
  | some (.bool b) => push (.bool b)
  | _ => push (.bool false)

/-- `CHILD_AT`. -/
def childAt : Routine env Unit := do
  let (n, i) ← popNodeIndex env ⟨.typeMismatch, "CHILD_AT requires (node,int)."⟩
    (by simp [Fault.Regular, machineDiagnostics])
  if i < 0 ∨ n.childCount ≤ i.toNat then
    throw ⟨.invalidProgram, "CHILD_AT index out of range."⟩
  let vm ← look
  let k ← deref vm.nodeChildren[n.childStart + i.toNat]?
  push (.node k)

/-! ## Making nodes -/

/-- `create_runtime_node_from_value`. -/
def createRuntimeNodeFromValue (v : Value) : Routine env Nat :=
  let create (kind id : String) (attrs : List NodeAttr) : Routine env Nat :=
    createNode (litPtr kind) (litPtr id) attrs (.array [])
  let value := litPtr "value"
  match v with
  | .node k => return k
  | .string .null => throw ⟨.typeMismatch, "Runtime string value must be non-null."⟩
  | .string p => create "Lit" "runtime_string" [⟨value, .string p⟩]
  | .int i => create "Lit" "runtime_int" [⟨value, .int i⟩]
  | .number x => do
      let p ← override ⟨.memoryPressure, "Runtime number string allocation failed."⟩
        (copyString (.lit (env.floats.format x)))
      create "Lit" "runtime_number" [⟨value, .string p⟩]
  | .bool b => create "Lit" "runtime_bool" [⟨value, .bool b⟩]
  | .null => create "Null" "runtime_null" []
  | .bytes _ n => create "Lit" "runtime_bytes" [⟨litPtr "byteLength", .int n⟩]
  | .void => create "Block" "void" []
  | _ => create "Err" "runtime_err"
      [⟨litPtr "code", .identifier (litPtr "RUN030")⟩, ⟨litPtr "message", .string (litPtr "Unsupported runtime value.")⟩,
        ⟨litPtr "nodeId", .identifier (litPtr "runtime")⟩]

/-- Pop values and make a node of each, the last one first. -/
def popChildren : Nat → List Nat → Routine env (List Nat)
  | 0, children => return children
  | count + 1, children => do
      let v ← pop
      let k ← createRuntimeNodeFromValue env v
      popChildren count (k :: children)

/-- `MAKE_BLOCK`. -/
def makeBlock : Routine env Unit := do
  let id ← popText env ⟨.typeMismatch, "MAKE_BLOCK requires string id."⟩ (by simp [Fault.Regular, machineDiagnostics])
  pushNode env (litPtr "Block") id [] (.array [])

/-- `MAKE_NODE_EMPTY`. -/
def makeNodeEmpty : Routine env Unit := do
  let id ← pop
  let kind ← pop
  match kind.stringPtr, id.stringPtr with
  | some kind, some id => pushNode env kind id [] (.array [])
  | _, _ => throw ⟨.typeMismatch, "MAKE_NODE_EMPTY requires (string,string)."⟩

/-- `MAKE_ERR`. -/
def makeErr : Routine env Unit := do
  let nodeId ← pop
  let message ← pop
  let code ← pop
  let id ← pop
  match nodeId.stringPtr, message.stringPtr, code.stringPtr, id.stringPtr with
  | some nodeId, some message, some code, some id =>
      pushNode env (litPtr "Err") id
        [⟨litPtr "code", .identifier code⟩, ⟨litPtr "message", .string message⟩,
          ⟨litPtr "nodeId", .identifier nodeId⟩] (.array [])
  | _, _, _, _ => throw ⟨.typeMismatch, "MAKE_ERR requires (string,string,string,string)."⟩

/-- `MAKE_LIT_STRING`, `MAKE_LIT_INT` and `MAKE_LIT_BOOL`: a literal with the value that fits. -/
def makeLit (attr : Value → Option AttrValue) (f : Fault) (h : f.Regular) : Routine env Unit := do
  let v ← pop
  let id ← pop
  match id.stringPtr, attr v with
  | some id, some a => pushNode env (litPtr "Lit") id [⟨litPtr "value", a⟩] (.array [])
  | _, _ => throw f h

def makeLitString : Routine env Unit :=
  makeLit env (fun v => v.stringPtr.map .string) ⟨.typeMismatch, "MAKE_LIT_STRING requires (string,string)."⟩
    (by simp [Fault.Regular, machineDiagnostics])

def makeLitInt : Routine env Unit :=
  makeLit env (fun v => match v with | .int i => some (.int i) | _ => none)
    ⟨.typeMismatch, "MAKE_LIT_INT requires (string,int)."⟩ (by simp [Fault.Regular, machineDiagnostics])

def makeLitBool : Routine env Unit :=
  makeLit env (fun v => match v with | .bool b => some (.bool b) | _ => none)
    ⟨.typeMismatch, "MAKE_LIT_BOOL requires (string,bool)."⟩ (by simp [Fault.Regular, machineDiagnostics])

/-- `MAKE_FIELD_STRING`. -/
def makeFieldString : Routine env Unit := do
  let v ← pop
  let key ← pop
  match key.stringPtr with
  | none => throw ⟨.typeMismatch, "MAKE_FIELD_STRING requires (string,any)."⟩
  | some key =>
      let child ← createRuntimeNodeFromValue env v
      pushNode env (litPtr "Field") (litPtr "field") [⟨litPtr "key", .string key⟩] (.array [child])

/-- `MAKE_MAP`. -/
def makeMap : Routine env Unit := do
  let count ← pop
  match count with
  | .int i =>
      if i < 0 then throw ⟨.typeMismatch, "MAKE_MAP requires int child count."⟩
      else
        let vm ← look
        if vmNodeChildCapacity < i.toNat ∨ vm.stack.length < i.toNat then
          throw ⟨.invalidProgram, "MAKE_MAP count exceeded VM limits."⟩
        let children ← popChildren env i.toNat []
        pushNode env (litPtr "Map") (litPtr "map") [] (.array children)
  | _ => throw ⟨.typeMismatch, "MAKE_MAP requires int child count."⟩

/-- The attributes in a slice that ends below a capacity, or the fault of the instruction that reads it. -/
def readAttrs (n : NodeRecord) (capacity : Nat) (f : Fault) (h : f.Regular) : Routine env (List NodeAttr) :=
  if n.attrCount ≠ 0 ∧ capacity < n.attrStart + n.attrCount then throw f h
  else do
    let vm ← look
    deref ((List.range' n.attrStart n.attrCount).mapM (vm.nodeAttrs[·]?))

/-- The children in a slice. -/
def readChildren (n : NodeRecord) (capacity : Nat) (f : Fault) (h : f.Regular) : Routine env (List Nat) :=
  if n.childCount ≠ 0 ∧ capacity < n.childStart + n.childCount then throw f h
  else do
    let vm ← look
    deref ((List.range' n.childStart n.childCount).mapM (vm.nodeChildren[·]?))

/-- `MAKE_NODE`. The record of the template is read again after the children have been made, at the same address: its
slot may hold another record by then, and the address is gone if the record array has been reallocated. -/
def makeNode : Routine env Unit := do
  let argc ← pop
  let template ← pop
  let before ← look
  match argc, template with
  | .int i, .node t =>
      match before.lookupNode t with
      | none => throw ⟨.typeMismatch, "MAKE_NODE requires (node,int>=0)."⟩
      | some n =>
          if i < 0 then throw ⟨.typeMismatch, "MAKE_NODE requires (node,int>=0)."⟩
          else if vmNodeChildCapacity < i.toNat ∨ vmNodeAttrCapacity < n.attrCount ∨ before.stack.length < i.toNat then
            throw ⟨.invalidProgram, "MAKE_NODE arguments exceeded VM limits."⟩
          else
            let attrs ← readAttrs env n vmNodeAttrCapacity ⟨.invalidProgram, "MAKE_NODE attr slot was invalid."⟩
              (by simp [Fault.Regular, machineDiagnostics])
            let children ← popChildren env i.toNat []
            let after ← look
            let n ← deref (if after.nodeCapacity = before.nodeCapacity then after.nodes[t - 1]? else none)
            let attrs ← deref (if n.attrCount ≤ attrs.length then some (attrs.take n.attrCount) else none)
            pushNode env n.kind n.id attrs (.array children)
  | _, _ => throw ⟨.typeMismatch, "MAKE_NODE requires (node,int>=0)."⟩

/-- `APPEND_CHILD`. -/
def appendChild : Routine env Unit := do
  let child ← pop
  let v ← pop
  let vm ← look
  match v, child with
  | .node k, .node c =>
      match vm.lookupNode k with
      | none => throw ⟨.typeMismatch, "APPEND_CHILD requires (node,node)."⟩
      | some n =>
          if vm.lookupNode c = none then
            throw ⟨.typeMismatch, "APPEND_CHILD child node handle was invalid."⟩
          if vm.nodeAttrCapacity < n.attrCount ∨ vm.nodeChildCapacity < n.childCount + 1 then
            throw ⟨.invalidProgram, "APPEND_CHILD exceeded VM node capacity."⟩
          allocate ⟨.memoryPressure, "APPEND_CHILD scratch allocation failed."⟩ "APPEND_CHILD scratch"
          let attrs ← readAttrs env n vm.nodeAttrCapacity ⟨.invalidProgram, "APPEND_CHILD attr slot was invalid."⟩
            (by simp [Fault.Regular, machineDiagnostics])
          let children ← readChildren env n vm.nodeChildCapacity
            ⟨.invalidProgram, "APPEND_CHILD child slot was invalid."⟩ (by simp [Fault.Regular, machineDiagnostics])
          pushNode env n.kind n.id attrs (.array (children ++ [c]))
  | _, _ => throw ⟨.typeMismatch, "APPEND_CHILD requires (node,node)."⟩

/-- `APPEND_ATTR`: the attribute of the second node, under the id of that node. -/
def appendAttr : Routine env Unit := do
  let attr ← pop
  let v ← pop
  let vm ← look
  match v, attr with
  | .node k, .node a =>
      match vm.lookupNode k, vm.lookupNode a with
      | some n, some m =>
          if m.attrCount ≠ 1 ∨ vm.nodeAttrCapacity < n.attrCount + 1 ∨ vm.nodeChildCapacity < n.childCount then
            throw ⟨.invalidProgram, "APPEND_ATTR requires single-attr node and capacity."⟩
          allocate ⟨.memoryPressure, "APPEND_ATTR scratch allocation failed."⟩ "APPEND_ATTR scratch"
          let attrs ← readAttrs env n vm.nodeAttrCapacity ⟨.invalidProgram, "APPEND_ATTR attr slot was invalid."⟩
            (by simp [Fault.Regular, machineDiagnostics])
          let last ← deref vm.nodeAttrs[m.attrStart]?
          let children ← readChildren env n vm.nodeChildCapacity
            ⟨.invalidProgram, "APPEND_ATTR child slot was invalid."⟩ (by simp [Fault.Regular, machineDiagnostics])
          pushNode env n.kind n.id (attrs ++ [⟨m.id, last.value⟩]) (.array children)
      | _, _ => throw ⟨.typeMismatch, "APPEND_ATTR requires (node,node)."⟩
  | _, _ => throw ⟨.typeMismatch, "APPEND_ATTR requires (node,node)."⟩

end Aivm
